import AmlogicV901d.Lib.Runs
import AmlogicV901d.Guarantees.ConfigPaths

/-!
# References of the configuration tree

Every call by path takes a reference of each node on the path, and is meant to drop them
again. A call is neutral if the counter of every node below the root is what it was. The
root's own counter is left out: the calls drop a reference of it which they never took.

Some calls are not neutral. A path of which only the beginning is found keeps the
references of that beginning; a name that is registered already keeps one of the node that
has it; and a path that is only an item, of a node other than the root, drops references
which were not taken. `Clean` is that condition on a call and the tree before it.
-/
namespace AmlogicV901d.Guarantees.ConfigRefs
open Lib.ParentChain Source.Configs ConfigPaths List

variable {V : Type} {s s' s'' : Nodes V} {n m p q : Nat} {l r : List Nat} {path : List Char} {d e : Nat → Int}

/-! ## Calls with a path -/

/-- The path leads to a node of which `inner` holds, or not even its first name is found. -/
def PathClean (s : Nodes V) (path : List Char) (inner : Nat → Prop) : Prop :=
  match target s path with
  | some m => inner m
  | none => endTrail s path = []

instance {inner : Nat → Prop} [DecidablePred inner] : Decidable (PathClean s path inner) :=
  match h : target s path with
  | some m => decidable_of_iff (inner m) (by simp only [PathClean, h])
  | none => decidable_of_iff (endTrail s path = []) (by simp only [PathClean, h])

variable {inner : Nat → Prop}

theorem below_same (h : Same s s') : Below s' n ↔ Below s n := by rw [Below, Below, h.up]

theorem registered_same (h : Same s s') : Registered s' n ↔ Registered s n := by rw [Registered, Registered, below_same h]

theorem fresh_same (h : Same s s') (hq : Fresh s q) : Fresh s' q := ⟨hq.ne_root, h.count ▸ hq.exists_, h.up ▸ hq.free⟩

theorem fits_same {clean : Prop} (h : Same s s') (hfits : Fits s' clean d) : Fits s clean d :=
  ⟨hfits.neutral, fun hnot => by simpa only [below_same h] using hfits.leaks hnot⟩

theorem endTrail_leaks (ht : Tree s) (h : endTrail s path ≠ []) : ∃ n, Below s n ∧ occ (endTrail s path) n = 1 := by
  unfold endTrail at h ⊢
  split at h
  · exact absurd rfl h
  · rename_i htop
    rw [if_neg htop]
    exact trail_leaks ht (.inl rfl) h

theorem lost_fits (ht : Tree s) (h : target s path = none) :
    Fits s (PathClean s path inner) (occ (endTrail s path)) := by
  rw [PathClean, h]
  refine ⟨fun hnil n _ => by rw [hnil]; rfl, fun hne => ?_⟩
  obtain ⟨n, hn, hocc⟩ := endTrail_leaks ht hne
  exact ⟨n, hn, .inl hocc⟩

theorem target_registered (ht : Tree s) (h : target s path = some m) : Registered s m := by
  obtain ⟨r, hr, heq⟩ := target_chain ht h
  by_cases hroot : m = rootNode
  · exact .inl hroot
  refine .inr ⟨r, hr, ?_⟩
  have hmem : rootNode ∈ m :: r := by
    rw [heq]
    exact mem_append_right _ mem_cons_self
  exact (mem_cons.mp hmem).resolve_left (Ne.symm hroot)

theorem target_room (ht : Tree s) (h : target s path = some m) (hr : Chain (up s) m r) (hstep : Step s s' (occ (endTrail s path)))
    (hroom : RoomBelow s 0) : RoomBelow s' r.length := by
  obtain ⟨r', hr', heq⟩ := target_chain ht h
  obtain rfl := hr.unique hr'
  intro n k hk hlt
  rw [hstep.same.up] at hk
  have hnot : n ∉ endTrail s path := by
    intro hmem
    have hn : n ∈ m :: r := by
      rw [heq]
      exact mem_append_left _ (mem_reverse.mpr hmem)
    rcases mem_cons.mp hn with rfl | hn
    · rw [hk.unique hr] at hlt
      exact Nat.lt_irrefl _ hlt
    · exact absurd (hr.length_lt_of_mem hn hk) (Nat.lt_asymm hlt)
  refine hstep.room_of_ne ?_ (hroom n k hk (Nat.zero_lt_of_lt hlt))
  rw [occ, count_eq_zero.mpr hnot]
  rfl

theorem grows_chain (h : Grows s s') (ht : Tree s) (ht' : Tree s') (hm : Registered s m) (hr : Chain (up s) m r) :
    Chain (up s') m r := by
  refine hr.congr fun b hb => ?_
  cases hup : up s b with
  | some c => exact h.up b c hup
  | none =>
    have hroot : rootNode ∈ m :: r := by
      rcases hm with rfl | ⟨r', hr', hroot⟩
      · exact .head _
      · rw [hr.unique hr']
        exact .tail _ hroot
    rw [hr.top_unique hb hroot hup ht.top, ht'.top]

theorem found_spec (inner : Nat → Prop) (ht : Tree s) (h : target s path = some m) (hstep : Step s s' (occ (endTrail s path)))
    (hin : Drifts s' s'' d) (hfits : Fits s (inner m) d) :
    ∃ t e, configsPutNode s'' (some m) true none = some t ∧ Drifts s t e ∧ Fits s (PathClean s path inner) e := by
  obtain ⟨r, hr, heq⟩ := target_chain ht h
  have hreg := target_registered ht h
  have hr'' : Chain (up s'') m r := grows_chain hin.grows (hstep.same.tree ht) hin.tree ((registered_same hstep.same).mpr hreg)
    (hstep.same.up ▸ hr)
  obtain ⟨t, hput, hdrop⟩ := putNode_spec hin.tree hr''
  refine ⟨t, _, hput, ((hstep.drifts ht).trans hin).trans (hdrop.drifts hin.tree), ?_⟩
  have hall : upTo none r = r := takeWhile_eq_self_iff.mpr fun b _ => by simp
  have hd : ∀ n ≠ rootNode, (occ (endTrail s path) + d + -occ (m :: upTo none r)) n = d n := by
    intro n hn
    rw [hall, heq, Pi.add_apply, Pi.add_apply, Pi.neg_apply, occ, occ, count_append, count_reverse, count_singleton,
      if_neg (by simpa using Ne.symm hn)]
    omega
  rw [PathClean, h]
  refine ⟨fun hclean n hn => (hd n hn).trans (hfits.neutral hclean n hn), fun hnot => ?_⟩
  obtain ⟨n, hn, hleak⟩ := hfits.leaks hnot
  exact ⟨n, hn, by rw [hd n hn.ne_root]; exact hleak⟩

/-! ## Calls -/

def StrClean (s : Nodes V) (topnode : Option Nat) (path val : Option (List Char)) : Prop :=
  path.getD [] = [] ∨ val.getD [] = [] ∨ ItemClean s topnode path

instance {topnode : Option Nat} {path val : Option (List Char)} : Decidable (StrClean s topnode path val) :=
  inferInstanceAs (Decidable (_ ∨ _ ∨ _))

def PrefixClean (s : Nodes V) (pre path str : Option (List Char)) : Prop :=
  if pre.getD [] = [] then StrClean s none path str else PathClean s (pre.getD []) fun m => StrClean s (some m) path str

instance {pre path str : Option (List Char)} : Decidable (PrefixClean s pre path str) :=
  inferInstanceAs (Decidable (if pre.getD [] = [] then StrClean s none path str
    else PathClean s (pre.getD []) fun m => StrClean s (some m) path str))

/-- The condition on a call and the tree before it. -/
def Clean (s : Nodes V) : Call V → Prop
  | .registerPathNode path newNode =>
    if path.getD [] = [] then RegisterClean s rootNode newNode
    else PathClean s (path.getD []) fun m => RegisterClean s m newNode
  | .registerPathConfigs path _ => PathClean s (path.getD []) fun _ => True
  | .setNodePathValue topnode path _ _ => ItemClean s topnode path
  | .getNodePathValue topnode path _ => ItemClean s topnode path
  | .setNodePathStr topnode path val => StrClean s topnode path val
  | .getNodePathStr topnode path _ => path.getD [] = [] ∨ ItemClean s topnode path
  | .setNodePathValonpath topnode path => StrClean s topnode (some path) (configsParserStrValstr path)
  | .setPrefixPathStr pre path str => PrefixClean s pre path str
  | .setPrefixPathValonpath pre path => PrefixClean s pre (some path) (configsParserStrValstr path)
  | .listPathNodes pre _ _ => PathClean s (pre.getD []) fun _ => True

instance {c : Call V} : Decidable (Clean s c) :=
  match c with
  | .registerPathNode path newNode => inferInstanceAs (Decidable (if path.getD [] = [] then RegisterClean s rootNode newNode
      else PathClean s (path.getD []) fun m => RegisterClean s m newNode))
  | .registerPathConfigs path _ => inferInstanceAs (Decidable (PathClean s (path.getD []) fun _ => True))
  | .setNodePathValue topnode path _ _ => inferInstanceAs (Decidable (ItemClean s topnode path))
  | .getNodePathValue topnode path _ => inferInstanceAs (Decidable (ItemClean s topnode path))
  | .setNodePathStr topnode path val => inferInstanceAs (Decidable (StrClean s topnode path val))
  | .getNodePathStr topnode path _ => inferInstanceAs (Decidable (path.getD [] = [] ∨ ItemClean s topnode path))
  | .setNodePathValonpath topnode path =>
    inferInstanceAs (Decidable (StrClean s topnode (some path) (configsParserStrValstr path)))
  | .setPrefixPathStr pre path str => inferInstanceAs (Decidable (PrefixClean s pre path str))
  | .setPrefixPathValonpath pre path => inferInstanceAs (Decidable (PrefixClean s pre (some path) (configsParserStrValstr path)))
  | .listPathNodes pre _ _ => inferInstanceAs (Decidable (PathClean s (pre.getD []) fun _ => True))

/-- A call registers a node that is not registered, and starts from one that is. -/
def Admissible (s : Nodes V) : Call V → Prop
  | .registerPathNode _ newNode => Fresh s newNode
  | .setNodePathValue topnode _ _ _ => Registered s (topnode.getD rootNode)
  | .getNodePathValue topnode _ _ => Registered s (topnode.getD rootNode)
  | .setNodePathStr topnode _ _ => Registered s (topnode.getD rootNode)
  | .getNodePathStr topnode _ _ => Registered s (topnode.getD rootNode)
  | .setNodePathValonpath topnode _ => Registered s (topnode.getD rootNode)
  | _ => True

/-- The call returns, and below the root it is neutral exactly if `clean`. -/
def Spec (s : Nodes V) (res : Option (Int32 × Nodes V)) (clean : Prop) : Prop :=
  ∃ ret s' d, res = some (ret, s') ∧ Drifts s s' d ∧ Fits s clean d

theorem spec_refl {ret : Int32} {clean : Prop} (ht : Tree s) (h : clean) : Spec s (some (ret, s)) clean :=
  ⟨ret, s, occ [], rfl, (Step.refl s).drifts ht, fun _ _ _ => rfl, fun hnot => absurd h hnot⟩

theorem roomBelow_mono {h k : Nat} (hroom : RoomBelow s h) (hk : h ≤ k) : RoomBelow s k :=
  fun n l hl hlt => hroom n l hl (Nat.lt_of_le_of_lt hk hlt)

theorem roomBelow_zero (ht : Tree s) (h : ∀ n ≠ rootNode, Room s n) : RoomBelow s 0 := by
  intro n l hl hlt
  refine h n ?_
  rintro rfl
  rw [hl.unique (.top ht.top)] at hlt
  exact Nat.lt_irrefl _ hlt

theorem strClean_same {topnode : Option Nat} {path val : Option (List Char)} (h : Same s s') :
    StrClean s' topnode path val ↔ StrClean s topnode path val := by
  cases path with
  | none => rfl
  | some path => simp only [StrClean, ItemClean, Followed, h.trail]

theorem registerClean_same (h : Same s s') : RegisterClean s' p q ↔ RegisterClean s p q := by
  simp only [RegisterClean, h.depth, h.nodePrefix, h.name, h.son]

theorem registerConfigs_step {configs : List (Mconfig V)} : Step s (configsRegisterConfigs s n configs).2 (occ []) := by
  unfold configsRegisterConfigs
  split
  · exact .refl s
  dsimp only
  refine ⟨same_modify ⟨_, _, rfl⟩, fun m => ?_⟩
  unfold Nodes.modify
  by_cases hm : m = n
  · subst hm
    simp
  · simp [Function.update_of_ne hm]

section Calls
variable (ops : ValueOps V) {topnode : Option Nat} (ht : Tree s) (hroom : RoomBelow s 0)
include ht hroom

theorem endNode_getD {pre : Option (List Char)} :
    ∃ s', configsGetNodePathEndNode s none pre = (target s (pre.getD []), s') ∧ Step s s' (occ (endTrail s (pre.getD []))) := by
  cases pre with
  | none => exact ⟨s, rfl, .refl s⟩
  | some path => exact endNode_spec ht hroom

variable {path : Option (List Char)}

theorem onPathConfig_call {set : Bool} {act : V → V × Int32} (hreg : Registered s (topnode.getD rootNode)) :
    Spec s (onPathConfig s topnode path set act) (ItemClean s topnode path) := by
  obtain ⟨l, hl⟩ := ht.chain (topnode.getD rootNode)
  obtain ⟨ret, s', d, hres, hstep, hfits⟩ :=
    onPathConfig_spec ht hreg hl (roomBelow_mono hroom (Nat.zero_le _))
  exact ⟨ret, s', d, hres, hstep.drifts ht, hfits⟩

omit hroom in
theorem setNodePathStr_spec {path val : Option (List Char)} (hreg : Registered s (topnode.getD rootNode))
    (hl : Chain (up s) (topnode.getD rootNode) l) (hbelow : RoomBelow s l.length) :
    ∃ ret s' d, configsSetNodePathStr ops s topnode path val = some (ret, s') ∧ Step s s' d ∧
      Fits s (StrClean s topnode path val) d := by
  unfold configsSetNodePathStr StrClean
  by_cases hempty : path.getD [] = [] ∨ val.getD [] = []
  · rw [if_pos hempty]
    refine ⟨-1, s, occ [], rfl, .refl s, fun _ _ _ => rfl, fun hnot => absurd ?_ hnot⟩
    rcases hempty with h | h
    · exact .inl h
    · exact .inr (.inl h)
  · rw [if_neg hempty]
    obtain ⟨hpath, hval⟩ := not_or.mp hempty
    simp only [hpath, hval, false_or]
    exact onPathConfig_spec ht hreg hl hbelow

theorem setNodePathStr_call {path val : Option (List Char)} (hreg : Registered s (topnode.getD rootNode)) :
    Spec s (configsSetNodePathStr ops s topnode path val) (StrClean s topnode path val) := by
  obtain ⟨l, hl⟩ := ht.chain (topnode.getD rootNode)
  obtain ⟨ret, s', d, hres, hstep, hfits⟩ :=
    @setNodePathStr_spec V s l ops topnode ht path val hreg hl (roomBelow_mono hroom (Nat.zero_le _))
  exact ⟨ret, s', d, hres, hstep.drifts ht, hfits⟩

/-- A call that takes the node of a path, acts on it and puts it. -/
theorem path_call {inner : Nat → Prop} {lost : Int32} (f : Nodes V → Nat → Option (Int32 × Nodes V))
    (hf : ∀ {s' m r}, Same s s' → Tree s' → Registered s' m → Chain (up s') m r → RoomBelow s' r.length →
      ∃ ret s'' d, f s' m = some (ret, s'') ∧ Drifts s' s'' d ∧ Fits s (inner m) d) :
    Spec s (match configsGetNodePathEndNode s none path with
      | (none, s) => some (lost, s)
      | (some m, s) => do
        let (ret, s) ← f s m
        let s ← configsPutNode s (some m) true none
        pure (ret, s)) (PathClean s (path.getD []) inner) := by
  obtain ⟨s', hend, hstep⟩ := endNode_getD ht hroom
  rw [hend]
  cases htarget : target s (path.getD []) with
  | none => exact ⟨lost, s', _, rfl, hstep.drifts ht, lost_fits ht htarget⟩
  | some m =>
    obtain ⟨r, hr, -⟩ := target_chain ht htarget
    have hsame := hstep.same
    obtain ⟨ret, s'', d, hres, hin, hfits⟩ := hf hsame (hsame.tree ht) ((registered_same hsame).mpr (target_registered ht htarget))
      (hsame.up ▸ hr) (target_room ht htarget hr hstep hroom)
    obtain ⟨t, e, hput, hdrifts, hfits'⟩ := found_spec inner ht htarget hstep hin hfits
    refine ⟨ret, t, e, ?_, hdrifts, hfits'⟩
    dsimp only
    rw [hres, Option.bind_eq_bind, Option.bind_some]
    rw [hput]
    rfl

theorem setPrefixPathStr_call {pre path str : Option (List Char)} :
    Spec s (configsSetPrefixPathStr ops s pre path str) (PrefixClean s pre path str) := by
  unfold configsSetPrefixPathStr PrefixClean
  by_cases hempty : pre.getD [] = []
  · rw [if_pos hempty, if_pos hempty]
    exact setNodePathStr_call ops ht hroom (.inl rfl)
  rw [if_neg hempty, if_neg hempty]
  refine path_call ht hroom (fun s m => configsSetNodePathStr ops s (some m) path str) fun {s' m r} hsame ht' hreg hr hbelow => ?_
  obtain ⟨ret, s'', d, hset, hin, hfits⟩ := @setNodePathStr_spec V s' r ops (some m) ht' path str hreg hr hbelow
  rw [strClean_same hsame] at hfits
  exact ⟨ret, s'', d, hset, hin.drifts ht', fits_same hsame hfits⟩

theorem registerPathNode_call (hq : Fresh s q) :
    Spec s (configsRegisterPathNode s path q) (if path.getD [] = [] then RegisterClean s rootNode q
      else PathClean s (path.getD []) fun m => RegisterClean s m q) := by
  unfold configsRegisterPathNode
  by_cases hempty : path.getD [] = []
  · rw [if_pos hempty, if_pos hempty]
    obtain ⟨ret, s', d, hres, hdrifts, hfits⟩ := @registerNode_spec V s [] none q ht hq (.inl rfl) (.top ht.top) hroom
    exact ⟨ret, s', d, congrArg some hres, hdrifts, hfits⟩
  rw [if_neg hempty, if_neg hempty]
  refine path_call ht hroom (fun s m => some (configsRegisterNode s (some m) q)) fun {s' m r} hsame ht' hreg hr hbelow => ?_
  obtain ⟨ret, s'', d, hres, hin, hfits⟩ := @registerNode_spec V s' r (some m) q ht' (fresh_same hsame hq) hreg hr hbelow
  rw [Option.getD_some, registerClean_same hsame] at hfits
  exact ⟨ret, s'', d, congrArg some hres, hin, fits_same hsame hfits⟩

theorem registerPathConfigs_call {configs : List (Mconfig V)} :
    Spec s (configsRegisterPathConfigs s path configs) (PathClean s (path.getD []) fun _ => True) := by
  unfold configsRegisterPathConfigs
  by_cases hempty : path.getD [] = []
  · rw [if_pos hempty, hempty]
    exact spec_refl ht rfl
  rw [if_neg hempty]
  exact path_call ht hroom (fun s m => some (configsRegisterConfigs s m configs)) fun _ ht' _ _ _ =>
    ⟨_, _, _, rfl, registerConfigs_step.drifts ht', fun _ _ _ => rfl, fun h => absurd trivial h⟩

theorem listPathNodes_call {size mode : Int} :
    Spec s (configsListPathNodes ops s path size mode) (PathClean s (path.getD []) fun _ => True) :=
  path_call ht hroom (fun s m => some (ops.configsListNodes s m size mode, s)) fun {s' _ _} _ ht' _ _ _ =>
    ⟨_, _, _, rfl, (Step.refl s').drifts ht', fun _ _ _ => rfl, fun h => absurd trivial h⟩

theorem getNodePathStr_call {size : Int} (hreg : Registered s (topnode.getD rootNode)) :
    Spec s (configsGetNodePathStr ops s topnode path size) (path.getD [] = [] ∨ ItemClean s topnode path) := by
  unfold configsGetNodePathStr
  by_cases hempty : path.getD [] = []
  · rw [if_pos hempty]
    exact spec_refl ht (.inl hempty)
  · rw [if_neg hempty]
    simp only [hempty, false_or]
    exact onPathConfig_call ht hroom hreg

theorem exec_spec {c : Call V} (hadm : Admissible s c) : Spec s (c.exec ops s) (Clean s c) := by
  unfold Call.exec Clean
  cases c with
  | registerPathNode path newNode => exact registerPathNode_call ht hroom hadm
  | registerPathConfigs path configs => exact registerPathConfigs_call ht hroom
  | setNodePathValue topnode path val size | getNodePathValue topnode path size =>
    exact onPathConfig_call ht hroom hadm
  | setNodePathStr topnode path val => exact setNodePathStr_call ops ht hroom hadm
  | getNodePathStr topnode path size => exact getNodePathStr_call ops ht hroom hadm
  | setNodePathValonpath topnode path => exact setNodePathStr_call ops ht hroom hadm
  | setPrefixPathStr pre path str | setPrefixPathValonpath pre path => exact setPrefixPathStr_call ops ht hroom
  | listPathNodes pre size mode => exact listPathNodes_call ops ht hroom

end Calls

/-! ## Sequences of calls -/

/-- The counters below the root are as before. -/
def Neutral (s s' : Nodes V) : Prop := ∀ n, Below s n → (s'.node n).refCnt = (s.node n).refCnt

theorem ref_changes {x : Int32} {k : Int} (hk : k = 1 ∨ k = -1) : x + Int32.ofInt k ≠ x := by
  intro h
  have hzero : Int32.ofInt k = 0 := Int32.add_eq_left.mp h
  rcases hk with rfl | rfl <;> exact nomatch hzero

section Run
variable (ops : ValueOps V)

def run : List (Call V) → Nodes V → Option (Nodes V)
  | [], s => some s
  | c :: calls, s => (c.exec ops s).bind fun res => run calls res.2

/-- A condition on every call of a sequence and the tree it finds. -/
def Along (P : Nodes V → Call V → Prop) : List (Call V) → Nodes V → Prop
  | [], _ => True
  | c :: calls, s => P s c ∧ ∀ res, c.exec ops s = some res → Along P calls res.2

instance decidableAlong {P : Nodes V → Call V → Prop} [∀ s c, Decidable (P s c)] : ∀ calls s, Decidable (Along ops P calls s)
  | [], _ => isTrue trivial
  | c :: calls, s =>
    match h : c.exec ops s with
    | none => decidable_of_iff (P s c) (by simp [Along, h])
    | some res =>
      have : Decidable (Along ops P calls res.2) := decidableAlong calls res.2
      decidable_of_iff (P s c ∧ Along ops P calls res.2) (by simp [Along, h])

/-- Every call of a sequence returns and is neutral. -/
def RunNeutral : List (Call V) → Nodes V → Prop
  | [], _ => True
  | c :: calls, s => ∃ res, c.exec ops s = some res ∧ Neutral s res.2 ∧ RunNeutral calls res.2

end Run

/-- What the counters allow: each node below the root can be referenced. -/
structure Sound (s : Nodes V) : Prop where
  tree : Tree s
  room : ∀ n ≠ rootNode, Room s n

/-- A clean call. -/
structure Kept (s s' : Nodes V) : Prop where
  grows : Grows s s'
  sound : Sound s'
  refs : ∀ n ≠ rootNode, (s'.node n).refCnt = (s.node n).refCnt

theorem kept_of_drifts (h : Sound s) (hd : Drifts s s' d) (hzero : ∀ n ≠ rootNode, d n = 0) : Kept s s' := by
  have hrefs : ∀ n ≠ rootNode, (s'.node n).refCnt = (s.node n).refCnt := by
    intro n hn
    rw [hd.refs, hzero n hn]
    exact Int32.add_zero _
  refine ⟨hd.grows, ⟨hd.tree, fun n hn => ?_⟩, hrefs⟩
  rw [Room, hrefs n hn]
  exact h.room n hn

variable (ops : ValueOps V)

theorem exec_clean {c : Call V} (h : Sound s) (hadm : Admissible s c) (hclean : Clean s c) :
    ∃ res, c.exec ops s = some res ∧ Kept s res.2 := by
  obtain ⟨ret, s', d, hres, hdrifts, hfits⟩ := exec_spec ops h.tree (roomBelow_zero h.tree h.room) hadm
  exact ⟨_, hres, kept_of_drifts h hdrifts (hfits.neutral hclean)⟩

theorem exec_neutral_iff {c : Call V} (h : Sound s) (hadm : Admissible s c) {res : Int32 × Nodes V}
    (hres : c.exec ops s = some res) : Neutral s res.2 ↔ Clean s c := by
  obtain ⟨ret, s', d, hres', hdrifts, hfits⟩ := exec_spec ops h.tree (roomBelow_zero h.tree h.room) hadm
  obtain rfl := Option.some.inj (hres.symm.trans hres')
  constructor
  · intro hneutral
    by_contra hnot
    obtain ⟨n, hn, hd⟩ := hfits.leaks hnot
    exact ref_changes hd ((hdrifts.refs n).symm.trans (hneutral n hn))
  · intro hclean n hn
    exact (kept_of_drifts h hdrifts (hfits.neutral hclean)).refs n hn.ne_root

theorem run_neutral_iff {calls : List (Call V)} (h : Sound s) (hadm : Along ops Admissible calls s) :
    RunNeutral ops calls s ↔ Along ops Clean calls s := by
  induction calls generalizing s with
  | nil => exact .rfl
  | cons c calls ih =>
    refine Lib.Runs.step_iff (fun res hres => (exec_neutral_iff ops h hadm.1 hres).mp) fun hclean => ?_
    obtain ⟨res, hres, hkept⟩ := exec_clean ops h hadm.1 hclean
    exact ⟨res, hres, (exec_neutral_iff ops h hadm.1 hres).mpr hclean, ih hkept.sound (hadm.2 _ hres)⟩

theorem run_clean {calls : List (Call V)} (h : Sound s) (hadm : Along ops Admissible calls s)
    (hclean : Along ops Clean calls s) : ∃ s', run ops calls s = some s' ∧ Kept s s' := by
  induction calls generalizing s with
  | nil => exact ⟨s, rfl, .refl s, h, fun _ _ => rfl⟩
  | cons c calls ih =>
    obtain ⟨res, hres, hkept⟩ := exec_clean ops h hadm.1 hclean.1
    obtain ⟨s', hrun, hkept'⟩ := ih hkept.sound (hadm.2 _ hres) (hclean.2 _ hres)
    refine ⟨s', ?_, hkept.grows.trans hkept'.grows, hkept'.sound, fun n hn => (hkept'.refs n hn).trans (hkept.refs n hn)⟩
    rw [run, hres]
    exact hrun

/-! ## Paths and leaves after a run -/

theorem grows_son {nodeName : List Char} (h : Grows s s') (hson : son s p nodeName = some m) : son s' p nodeName = some m := by
  rw [son, Option.filter_eq_some_iff] at hson ⊢
  refine ⟨?_, h.active m hson.2⟩
  obtain ⟨more, hmore⟩ := h.sons p
  simp only [h.name]
  rw [← hmore, find?_append, hson.1]
  rfl

theorem grows_trail {names : List (List Char)} (h : Grows s s') (hfollow : Followed s p names) :
    trail s' p names = trail s p names := by
  fun_induction trail s p names with
  | case1 => rfl
  | case2 _ _ _ hson =>
    rw [Followed, trail_cons_none hson] at hfollow
    cases hfollow
  | case3 _ _ _ _ hson ih => rw [trail_cons_some (grows_son h hson), ih ((followed_cons hson).mp hfollow)]

theorem grows_target (h : Grows s s') (htarget : target s path = some m) : target s' path = some m := by
  have hiff : NamesRoot s' path ↔ NamesRoot s path := by rw [NamesRoot, NamesRoot, h.name]
  unfold target at htarget ⊢
  simp only [hiff]
  split at htarget
  · rename_i htop
    rw [if_pos htop, htarget]
  rename_i htop
  split at htarget
  · rename_i hfollow
    have htrail := grows_trail h hfollow.2
    rw [if_neg htop, if_pos, ← htarget, reach, reach, htrail]
    refine ⟨hfollow.1, ?_⟩
    rw [Followed, htrail]
    exact hfollow.2
  · exact absurd htarget (by simp)

theorem kept_reachable (h : Sound s) (hkept : Kept s s') (hend : (configsGetNodePathEndNode s none (some path)).1 = some n) :
    (configsGetNodePathEndNode s' none (some path)).1 = some n := by
  obtain ⟨t, heq, -⟩ := endNode_spec h.tree (roomBelow_zero h.tree h.room)
  obtain ⟨t', heq', -⟩ := endNode_spec hkept.sound.tree (roomBelow_zero hkept.sound.tree hkept.sound.room)
  rw [heq] at hend
  rw [heq']
  exact grows_target hkept.grows hend

theorem kept_deletable {parent : Option Nat} (hkept : Kept s s') (hn : n ≠ rootNode) (hunused : (s.node n).refCnt = 0)
    (hleaf : (s'.node n).sonNodeList = []) : (configsDelEndnode s' parent n).1 = 0 := by
  have href : (s'.node n).refCnt = 0 := (hkept.refs n hn).trans hunused
  have hnum : (s'.node n).sonNodeNum = 0 := by rw [hkept.sound.tree.number, hleaf]; rfl
  unfold configsDelEndnode
  simp only [Nodes.modify, Function.update_self, href, hnum]
  cases parent with
  | none => rfl
  | some parent => rfl

/-- Every call of a sequence leaves the counters below the root as they were exactly if it is clean in the tree it
finds; and then every path that leads to a node still does, and every leaf that was not in use can be deleted. -/
theorem calls_are_reference_neutral (ops : ValueOps V) {calls : List (Call V)} (h : Sound s) (hadm : Along ops Admissible calls s) :
    (RunNeutral ops calls s ↔ Along ops Clean calls s) ∧
    (Along ops Clean calls s → ∃ s', run ops calls s = some s' ∧
      (∀ path n, (configsGetNodePathEndNode s none (some path)).1 = some n →
        (configsGetNodePathEndNode s' none (some path)).1 = some n) ∧
      ∀ parent n, n ≠ rootNode → (s.node n).refCnt = 0 → (s'.node n).sonNodeList = [] → (configsDelEndnode s' parent n).1 = 0) := by
  refine ⟨run_neutral_iff ops h hadm, fun hclean => ?_⟩
  obtain ⟨s', hrun, hkept⟩ := run_clean ops h hadm hclean
  exact ⟨s', hrun, fun _ _ hend => kept_reachable h hkept hend, fun _ _ hn hunused hleaf => kept_deletable hkept hn hunused hleaf⟩

/-! ## Two sequences on a small tree -/

/-- The root and nodes that can be registered under their names. -/
def unregistered (names : List (List Char)) : Nodes Nat where
  node n := configsInitNewNode ⟨[], [], false, 0, none, 0, [], none, 0, 0⟩ ((("root".toList :: names)[n]?).getD []) 3
  count := names.length + 1

theorem unregistered_spec (names : List (List Char)) : Unregistered (unregistered names) :=
  ⟨Nat.succ_pos _, fun _ => rfl, fun _ => rfl, fun _ => rfl, fun _ => rfl, fun _ => rfl, fun _ => rfl⟩

theorem unregistered_sound (names : List (List Char)) : Sound (unregistered names) :=
  ⟨(unregistered_spec names).tree, fun n _ => by rw [Room, (unregistered_spec names).refs]; decide⟩

/-- An item is a number: the length of the text it was set to. -/
def lengthOps : ValueOps Nat where
  configsStr2config _ str := (str.length, 1)
  configsConfig2str _ _ := 1
  configsSetConfigValue _ val _ := (val.toNat, 4)
  configsGetConfigValue _ _ := 4
  configsListNodes _ _ _ _ := 0

def mediaCalls : List (Call Nat) :=
  [.registerPathNode none 1, .registerPathConfigs (some "media".toList) [⟨"dbg".toList, 0⟩],
    .setNodePathStr none (some "media.dbg".toList) (some "1".toList), .getNodePathValue none (some "media.nosuch".toList) 4,
    .listPathNodes (some "nosuch".toList) 4096 0]

theorem mediaCalls_admissible : Along lengthOps Admissible mediaCalls (unregistered ["media".toList]) :=
  ⟨⟨by decide, by decide, rfl⟩, fun _ _ => ⟨trivial, fun _ _ => ⟨.inl rfl, fun _ _ => ⟨.inl rfl, fun _ _ =>
    ⟨trivial, fun _ _ => trivial⟩⟩⟩⟩⟩

theorem mediaCalls_neutral : RunNeutral lengthOps mediaCalls (unregistered ["media".toList]) :=
  (calls_are_reference_neutral lengthOps (unregistered_sound _) mediaCalls_admissible).1.mpr (by decide +kernel)

/-- Listing a path of which only the beginning exists keeps a reference, and the node can no longer be deleted.
Setting an item of a node by prefix and path drops references that were not taken; the second time, the node
is not found any more. -/
theorem media_references_lost :
    ((run lengthOps [.registerPathNode none 1, .listPathNodes (some "media.nosuch".toList) 4096 0] (unregistered ["media".toList])).map
      fun s => ((s.node 1).refCnt, (configsDelEndnode s (some 0) 1).1)) = some (1, -1) ∧
    ((run lengthOps [.registerPathNode none 1, .registerPathConfigs (some "media".toList) [⟨"dbg".toList, 0⟩],
      .setPrefixPathStr (some "media".toList) (some "dbg".toList) (some "1".toList),
      .setPrefixPathStr (some "media".toList) (some "dbg".toList) (some "1".toList)] (unregistered ["media".toList])).map
      fun s => ((s.node 1).refCnt, (configsGetNodePathEndNode s none (some "media".toList)).1)) = some (-2, none) := by
  decide +kernel

end AmlogicV901d.Guarantees.ConfigRefs
