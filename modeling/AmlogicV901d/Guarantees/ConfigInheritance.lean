import AmlogicV901d.Guarantees.ConfigPaths
import Mathlib.Data.List.Induction

/-!
# Permissions, depth and prefix of the configuration tree

`configs_register_node` computes the flags, the depth and the prefix of a node from those
its parent has at that moment, and never again. In a tree that is built from the root
downwards each node therefore has what its place in the tree asks for. A node that is
registered below a parent which has no parent itself yet keeps what it got then, whatever
is above the parent later.
-/
namespace AmlogicV901d.Guarantees.ConfigInheritance
open Lib.ParentChain Source.Configs ConfigPaths List

variable {calls : List (Option Nat × Nat)}

variable {V : Type} {s s' s₀ : Nodes V} {n m p q : Nat} {l : List Nat} {x : List Char} {names : List (List Char)}

/-! ## Prefixes -/

def dotted (names : List (List Char)) : List Char := ['.'].intercalate names

/-- The names of the proper ancestors below the root, from the top, given the chain of a node. -/
def ancestorNames (s : Nodes V) (l : List Nat) : List (List Char) := l.dropLast.reverse.map fun n => (s.node n).name

/-- The prefix that the registrations of these nodes, one below the other, make. -/
def builtPrefix (names : List (List Char)) : List Char :=
  names.foldl (fun acc x => (if acc ≠ [] then acc ++ ['.'] else []) ++ x) []

theorem builtPrefix_concat : builtPrefix (names ++ [x]) =
    (if builtPrefix names ≠ [] then builtPrefix names ++ ['.'] else []) ++ x := by
  rw [builtPrefix, foldl_append]
  rfl

theorem dotted_concat (h : names ≠ []) : dotted (names ++ [x]) = dotted names ++ '.' :: x := by
  induction names with
  | nil => exact absurd rfl h
  | cons a names ih =>
    cases names with
    | nil => simp [dotted, List.intercalate]
    | cons b names =>
      have hrest := ih (cons_ne_nil _ _)
      unfold dotted at hrest ⊢
      rw [cons_append, cons_append, intercalate_cons_cons, intercalate_cons_cons, ← cons_append, hrest]
      simp

theorem builtPrefix_eq_dotted (h : ∀ a ∈ names.head?, a ≠ []) : builtPrefix names = dotted names ∧ (names ≠ [] → builtPrefix names ≠ []) := by
  induction names using List.reverseRecOn with
  | nil => exact ⟨rfl, fun h => absurd rfl h⟩
  | append_singleton names x ih =>
    rw [builtPrefix_concat]
    cases names with
    | nil =>
      have hx : x ≠ [] := h x rfl
      exact ⟨by simp [builtPrefix, dotted, List.intercalate], fun _ => by simpa [builtPrefix] using hx⟩
    | cons a names =>
      obtain ⟨heq, hne⟩ := ih h
      rw [if_pos (hne (cons_ne_nil _ _)), dotted_concat (cons_ne_nil _ _), ← heq, append_assoc]
      exact ⟨rfl, fun _ => by simp⟩

theorem builtPrefix_length_lt (a : List Char) : (builtPrefix ([] :: names ++ [a])).length < (dotted ([] :: names ++ [a])).length := by
  induction names using List.reverseRecOn generalizing a with
  | nil => simp [builtPrefix, dotted, List.intercalate]
  | append_singleton names x ih =>
    have hx := ih x
    rw [← cons_append, builtPrefix_concat, dotted_concat (by simp)]
    split
    all_goals
      simp only [length_append, length_cons] at hx ⊢
      simp only [length_nil]
      omega

/-! ## Registrations -/

/-- The registration is not rejected: the new node is put below the parent. -/
def Takes (s : Nodes V) (parent newNode : Nat) : Prop :=
  newNode ≠ parent ∧ (s.node parent).depth < maxDepth ∧
  (s.node parent).nodePrefix.length + (s.node parent).name.length < maxPrefixName - 2 ∧
  (configsGetNodeWithName s parent (s.node newNode).name).1 = none

instance : Decidable (Takes s p q) := inferInstanceAs (Decidable (_ ∧ _ ∧ _ ∧ _))

theorem getNodeWithName_same : Same s (configsGetNodeWithName s p x).2 := by
  fun_cases configsGetNodeWithName s p x with
  | case1 | case4 => exact .refl s
  | case2 | case3 => exact inc_step.same

theorem registerNode_rule (parent : Option Nat) (q : Nat) {P : Nodes V → Prop}
    (rejected : ∀ s', ¬ Takes s (parent.getD rootNode) q → Same s s' → P s')
    (taken : ∀ s', Takes s (parent.getD rootNode) q → Same s s' → P (s'.attach (parent.getD rootNode) q)) :
    P (configsRegisterNode s parent q).2 := by
  unfold configsRegisterNode
  dsimp only
  split
  · exact rejected s (fun h => absurd ‹_› h.1) (.refl s)
  split
  · exact rejected s (fun h => absurd h.2.1 (Nat.not_lt.mpr ‹_›)) (.refl s)
  split
  · exact rejected s (fun h => absurd h.2.2.1 (Nat.not_lt.mpr ‹_›)) (.refl s)
  have hsame := @getNodeWithName_same V s (parent.getD rootNode) (s.node q).name
  unfold Takes at rejected taken
  rcases hget : configsGetNodeWithName s (parent.getD rootNode) (s.node q).name with ⟨found, s'⟩
  rw [hget] at hsame rejected taken
  cases found with
  | some m => exact rejected s' (fun h => absurd h.2.2.2 (by simp)) hsame
  | none => exact taken s' ⟨‹_›, Nat.not_le.mp ‹_›, Nat.not_le.mp ‹_›, rfl⟩ hsame

/-- Registrations one after the other. -/
def registerAll (calls : List (Option Nat × Nat)) (s : Nodes V) : Nodes V :=
  calls.foldl (fun s call => (configsRegisterNode s call.1 call.2).2) s

/-- A condition on every registration and the nodes it finds. -/
def Along (P : Nodes V → Nat → Nat → Prop) : List (Option Nat × Nat) → Nodes V → Prop
  | [], _ => True
  | call :: calls, s => P s (call.1.getD rootNode) call.2 ∧ Along P calls (configsRegisterNode s call.1 call.2).2

instance decidableAlong {P : Nodes V → Nat → Nat → Prop} [∀ s p q, Decidable (P s p q)] : ∀ calls s, Decidable (Along P calls s)
  | [], _ => isTrue trivial
  | call :: calls, s =>
    have : Decidable (Along P calls (configsRegisterNode s call.1 call.2).2) := decidableAlong calls _
    inferInstanceAs (Decidable (P s (call.1.getD rootNode) call.2 ∧ Along P calls (configsRegisterNode s call.1 call.2).2))

/-- Nodes are registered that are not registered yet, and in the end all of them are below the root. -/
structure Builds (calls : List (Option Nat × Nat)) (s : Nodes V) : Prop where
  fresh : Along (fun s _ newNode => Fresh s newNode) calls s
  tree : ∀ n p, up (registerAll calls s) n = some p → Below (registerAll calls s) n

/-- A parent is the root or registered itself when a node is put below it. -/
def ParentFirst (s : Nodes V) (parent newNode : Nat) : Prop :=
  Takes s parent newNode → parent = rootNode ∨ (up s parent).isSome

instance : Decidable (ParentFirst s p q) := inferInstanceAs (Decidable (_ → _))

/-- No son of the root that has sons with sons has an empty name. -/
def Named (s : Nodes V) : Prop := ∀ n l m, Chain (up s) n (l ++ [m, rootNode]) → l ≠ [] → (s.node m).name ≠ []

/-- Depth and prefix of a node are those of its place in the tree; an item is found for writing (reading) only
if its node and all nodes above it were made with the flag for it. -/
structure Inherited (s₀ s : Nodes V) : Prop where
  depth : ∀ n l, Chain (up s) n l → (s.node n).depth = l.length
  nodePrefix : ∀ n l, Chain (up s) n l → (s.node n).nodePrefix = dotted (ancestorNames s l)
  flags : ∀ topnode path set node i s', configsGetNodePathConfig s topnode path set = some (0, some (node, i), s') →
    ∀ l, Chain (up s) node l → ∀ m ∈ node :: l, (s₀.node m).rwFlags &&& (if set then configForW else configForR) ≠ 0

/-! ## From the root downwards -/

/-- What the nodes hold while every parent is registered before its sons. -/
structure Downwards (s₀ s : Nodes V) : Prop where
  tree : Tree s
  parents : ∀ n p, up s n = some p → Registered s p
  depth : ∀ n l, Chain (up s) n l → (s.node n).depth = l.length
  nodePrefix : ∀ n l, Chain (up s) n l → (s.node n).nodePrefix = builtPrefix (ancestorNames s l)
  flags : ∀ n l, Chain (up s) n l → ∀ m ∈ n :: l, (s.node n).rwFlags &&& (s₀.node m).rwFlags = (s.node n).rwFlags

theorem downwards_init (h : Unregistered s) : Downwards s s := by
  have hnil : ∀ {n l}, Chain (up s) n l → l = [] := fun hl => hl.unique (.top (h.up _))
  refine ⟨h.tree, fun n p hp => absurd ((h.up n).symm.trans hp) (by simp), fun n l hl => ?_, fun n l hl => ?_, fun n l hl m hm => ?_⟩
  · rw [hnil hl, h.depth]
    rfl
  · rw [hnil hl, h.nodePrefix]
    rfl
  · rw [hnil hl] at hm
    rw [mem_singleton.mp hm, UInt32.and_self]

theorem same_ancestorNames (h : Same s s') : ancestorNames s' l = ancestorNames s l := by
  simp only [ancestorNames, h.name]

theorem downwards_same (h : Same s s') (hd : Downwards s₀ s) : Downwards s₀ s' := by
  refine ⟨h.tree hd.tree, ?_, ?_, ?_, ?_⟩
  · simpa only [Registered, Below, h.up] using hd.parents
  · simpa only [h.up, h.depth] using hd.depth
  · simpa only [h.up, h.nodePrefix, same_ancestorNames h] using hd.nodePrefix
  · simpa only [h.up, h.rwFlags] using hd.flags

theorem attach_ancestorNames (hne : q ≠ p) : ancestorNames (s.attach p q) l = ancestorNames s l := by
  simp only [ancestorNames, (attach_keeps hne).1]

theorem fresh_not_parent {r : List Nat} (hd : Downwards s₀ s) (hq : Fresh s q) (hr : Chain (up s) n r) : q ∉ r := by
  intro hmem
  induction hr with
  | top => exact nomatch hmem
  | @above a b r h _ ih =>
    rcases mem_cons.mp hmem with rfl | hmem
    · obtain ⟨l, hl⟩ := hd.tree.chain q
      exact fresh_not_above hd.tree hq (hd.parents a q h) hl mem_cons_self
    · exact ih hmem

section Attach
variable (hd : Downwards s₀ s) (hq : Fresh s q) (hp : Registered s p)
include hd hq hp

theorem attach_chain {r : List Nat} (hr : Chain (up (s.attach p q)) n r) :
    (n ≠ q ∧ Chain (up s) n r) ∨ (n = q ∧ ∃ l, Chain (up s) p l ∧ r = p :: l) := by
  have hne := hq.ne_parent hd.tree hp
  have hframe : ∀ b ≠ q, up (s.attach p q) b = up s b := fun b hb => attach_up_of_ne hne hb
  by_cases hn : n = q
  · subst hn
    obtain ⟨l, hl⟩ := hd.tree.chain p
    have hl' := hl.link_frame hframe (fresh_not_above hd.tree hq hp hl)
    exact .inr ⟨rfl, l, hl, hr.unique (.above (attach_up_new hne) hl')⟩
  · obtain ⟨l, hl⟩ := hd.tree.chain n
    have hnot : q ∉ n :: l := not_mem_cons_of_ne_of_not_mem (.symm hn) (fresh_not_parent hd hq hl)
    rw [hr.unique (hl.link_frame hframe hnot)]
    exact .inl ⟨hn, hl⟩

theorem attach_registered (h : Registered s n) : Registered (s.attach p q) n := by
  have hne := hq.ne_parent hd.tree hp
  rcases h with rfl | ⟨l, hl, hroot⟩
  · exact .inl rfl
  · refine .inr ⟨l, hl.link_frame (fun b hb => attach_up_of_ne hne hb) ?_, hroot⟩
    exact fresh_not_above hd.tree hq (.inr ⟨l, hl, hroot⟩) hl

omit hp in
theorem sonPrefix_built (hl : Chain (up s) p l) :
    sonPrefix (s.node p) (s.node q) = builtPrefix (ancestorNames s (p :: l)) := by
  have hnil : (s.node q).nodePrefix = [] := hd.nodePrefix q [] (.top hq.free)
  unfold sonPrefix
  rw [hd.depth p l hl, hnil]
  cases l with
  | nil =>
    rfl
  | cons b l =>
    have hnames : ancestorNames s (p :: b :: l) = ancestorNames s (b :: l) ++ [(s.node p).name] := by
      simp [ancestorNames]
    rw [if_pos (by simp), hnames, builtPrefix_concat, hd.nodePrefix p _ hl]

theorem downwards_attach : Downwards s₀ (s.attach p q) := by
  have hne := hq.ne_parent hd.tree hp
  refine ⟨attach_tree hd.tree hq hp, fun n r hr => ?_, fun n r hr => ?_, fun n r hr => ?_, fun n r hr m hm => ?_⟩
  · refine attach_registered hd hq hp ?_
    by_cases hn : n = q
    · subst hn
      rw [attach_up_new hne] at hr
      exact Option.some.inj hr ▸ hp
    · rw [attach_up_of_ne hne hn] at hr
      exact hd.parents n r hr
  · rcases attach_chain hd hq hp hr with ⟨hn, hr⟩ | ⟨rfl, l, hl, rfl⟩
    · obtain ⟨_, _, hnode⟩ := attach_of_ne hne hn
      rw [hnode]
      exact hd.depth n r hr
    · rw [attach_new hne, hd.depth p l hl]
      rfl
  · rw [attach_ancestorNames hne]
    rcases attach_chain hd hq hp hr with ⟨hn, hr⟩ | ⟨rfl, l, hl, rfl⟩
    · obtain ⟨_, _, hnode⟩ := attach_of_ne hne hn
      rw [hnode]
      exact hd.nodePrefix n r hr
    · rw [attach_new hne]
      exact sonPrefix_built hd hq hl
  · rcases attach_chain hd hq hp hr with ⟨hn, hr⟩ | ⟨rfl, l, hl, rfl⟩
    · obtain ⟨_, _, hnode⟩ := attach_of_ne hne hn
      rw [hnode]
      exact hd.flags n r hr m hm
    rw [attach_new hne]
    rcases mem_cons.mp hm with rfl | hm
    · rw [UInt32.and_assoc, hd.flags m [] (.top hq.free) m mem_cons_self]
    · rw [UInt32.and_assoc, UInt32.and_comm (s.node n).rwFlags, ← UInt32.and_assoc, hd.flags p l hl m hm]

end Attach

theorem registered_of_parentFirst (hd : Downwards s₀ s) (h : p = rootNode ∨ (up s p).isSome) : Registered s p := by
  rcases h with h | h
  · exact .inl h
  · obtain ⟨r, hr⟩ := Option.isSome_iff_exists.mp h
    exact .inr ((hd.parents p r hr).above hd.tree hr)

theorem downwards_step {parent : Option Nat} (hd : Downwards s₀ s) (hq : Fresh s q) (hfirst : ParentFirst s (parent.getD rootNode) q) :
    Downwards s₀ (configsRegisterNode s parent q).2 := by
  refine registerNode_rule parent q (fun _ _ hsame => downwards_same hsame hd) fun s' htakes hsame => ?_
  have hreg := registered_of_parentFirst hd (hfirst htakes)
  refine downwards_attach (downwards_same hsame hd) ⟨hq.ne_root, hsame.count ▸ hq.exists_, hsame.up ▸ hq.free⟩ ?_
  rw [Registered, Below, hsame.up]
  exact hreg

theorem downwards_run (hd : Downwards s₀ s) (hfresh : Along (fun s _ q => Fresh s q) calls s)
    (hfirst : Along ParentFirst calls s) : Downwards s₀ (registerAll calls s) := by
  induction calls generalizing s with
  | nil => exact hd
  | cons call calls ih => exact ih (downwards_step hd hfresh.1 hfirst.1) hfresh.2 hfirst.2

/-! ## What follows from depths -/

theorem registered_keeps (hfresh : Along (fun s _ q => Fresh s q) calls s) (hn : up s n = some p) :
    up (registerAll calls s) n = some p ∧ ((registerAll calls s).node n).depth = (s.node n).depth := by
  induction calls generalizing s with
  | nil => exact ⟨hn, rfl⟩
  | cons call calls ih =>
    have hstep := @registerNode_rule V s call.1 call.2 (fun t => up t n = some p ∧ (t.node n).depth = (s.node n).depth)
      (fun _ _ hsame => ⟨hsame.up ▸ hn, hsame.depth⟩) fun s' htakes hsame => by
      have hnq : n ≠ call.2 := by
        rintro rfl
        exact absurd (hfresh.1.free.symm.trans hn) (by simp)
      obtain ⟨_, _, hnode⟩ := attach_of_ne htakes.1 hnq
      rw [attach_up_of_ne htakes.1 hnq, hnode, hsame.up]
      exact ⟨hn, hsame.depth⟩
    have hrest := ih hfresh.2 hstep.1
    exact ⟨hrest.1, hrest.2.trans hstep.2⟩

/-- Nodes that are not registered have depth 0. -/
def ZeroDepth (s : Nodes V) : Prop := ∀ n, up s n = none → (s.node n).depth = 0

theorem zeroDepth_step {parent : Option Nat} (h : ZeroDepth s) : ZeroDepth (configsRegisterNode s parent q).2 := by
  refine registerNode_rule parent q (fun _ _ hsame n hn => hsame.depth.trans (h n (hsame.up ▸ hn))) fun s' htakes hsame n hn => ?_
  have hnq : n ≠ q := by
    rintro rfl
    exact absurd ((attach_up_new htakes.1).symm.trans hn) (by simp)
  obtain ⟨_, _, hnode⟩ := attach_of_ne htakes.1 hnq
  rw [attach_up_of_ne htakes.1 hnq, hsame.up] at hn
  rw [hnode]
  exact hsame.depth.trans (h n hn)

theorem parentFirst_of_depth (hzero : ZeroDepth s) (hbuild : Builds calls s)
    (hdepth : ∀ n l, Chain (up (registerAll calls s)) n l → ((registerAll calls s).node n).depth = l.length) :
    Along ParentFirst calls s := by
  induction calls generalizing s with
  | nil => trivial
  | cons call calls ih =>
    refine ⟨fun htakes => ?_, ih (zeroDepth_step hzero) ⟨hbuild.fresh.2, hbuild.tree⟩ hdepth⟩
    by_contra hnot
    obtain ⟨hroot, hup⟩ := not_or.mp hnot
    -- the new node gets depth 1 and keeps it
    have hnew := @registerNode_rule V s call.1 call.2 (fun t => up t call.2 = some (call.1.getD rootNode) ∧ (t.node call.2).depth = 1)
      (fun _ hno _ => absurd htakes hno) fun s' _ hsame => by
      rw [attach_up_new htakes.1, attach_new htakes.1, hsame.depth, hzero _ (Option.not_isSome_iff_eq_none.mp hup)]
      exact ⟨rfl, rfl⟩
    obtain ⟨hfinal, hone⟩ := registered_keeps hbuild.fresh.2 hnew.1
    -- its parent is not the root, so its distance is more
    obtain ⟨l, hl, hmem⟩ := hbuild.tree _ _ hfinal
    have hlength := (hdepth _ l hl).symm.trans (hone.trans hnew.2)
    cases hl with
    | top => exact absurd hlength (by simp)
    | @above _ b r h hr =>
      have hb : b = call.1.getD rootNode := Option.some.inj (h.symm.trans hfinal)
      rcases mem_cons.mp hmem with heq | hmem
      · exact hroot (hb.symm.trans heq.symm)
      · have hpos := length_pos_of_mem hmem
        rw [length_cons] at hlength
        omega

/-! ## Access -/

theorem walkNames_same : Same s (walkNames s p names).2 := by
  fun_induction walkNames s p names with
  | case1 => exact .refl _
  | case2 _ _ _ _ _ hget => exact congrArg Prod.snd hget ▸ getNodeWithName_same
  | case3 _ _ _ _ _ _ hget ih => exact (congrArg Prod.snd hget ▸ getNodeWithName_same).trans ih

/-- An item is found only in a node that has the flag. -/
theorem found_flag {topnode : Option Nat} {path : Option (List Char)} {set : Bool} {err : Int32} {node i : Nat}
    (h : configsGetNodePathConfig s topnode path set = some (err, some (node, i), s')) :
    (s.node node).rwFlags &&& (if set then configForW else configForR) ≠ 0 := by
  cases path with
  | none => simp [configsGetNodePathConfig] at h
  | some path =>
    unfold configsGetNodePathConfig at h
    dsimp only at h
    have hsame := @walkNames_same V s (topnode.getD rootNode) (parsePath path.length path).1
    rcases hwalk : walkNames s (topnode.getD rootNode) (parsePath path.length path).1 with ⟨reached, t⟩
    rw [hwalk] at h hsame
    have hout : ∀ {n e}, ((configsPutNode t (some n) true (some (topnode.getD rootNode))).bind fun s => some (e, none, s)) ≠
        some (err, some (node, i), s') := by
      intro n e hput
      obtain ⟨t', -, heq⟩ := Option.bind_eq_some_iff.mp hput
      simp at heq
    cases reached with
    | error parent =>
      dsimp only at h
      split at h
      · exact absurd h hout
      · simp at h
    | ok reached =>
      cases hlast : (parsePath path.length path).2 with
      | none =>
        rw [hlast] at h
        simp at h
      | some item =>
        rw [hlast] at h
        dsimp only at h
        split at h
        · exact absurd h hout
        rename_i hw
        split at h
        · exact absurd h hout
        rename_i hr
        rcases getNodeConfig_cases with hget | ⟨j, hget⟩
        · rw [hget] at h
          exact absurd h hout
        rw [hget] at h
        obtain ⟨-, ⟨rfl, -⟩, -⟩ := h
        rw [hsame.rwFlags] at hw hr
        cases set with
        | true => simpa using hw
        | false => simpa using hr

theorem flag_above {a b w : UInt32} (hsub : a &&& b = a) (h : a &&& w ≠ 0) : b &&& w ≠ 0 := by
  intro hzero
  rw [← hsub, UInt32.and_assoc, hzero, UInt32.and_zero] at h
  exact h rfl

/-! ## The law and its condition -/

theorem chain_ends (ht : Tree s) (hbelow : ∀ n p, up s n = some p → Below s n) (hl : Chain (up s) n l) (hne : l ≠ []) :
    ∃ k, l = k ++ [rootNode] := by
  cases hl with
  | top => exact absurd rfl hne
  | above h hl =>
    obtain ⟨r, hr, hroot⟩ := hbelow _ _ h
    rw [(Chain.above h hl).unique hr]
    obtain ⟨front, behind, heq, hbehind⟩ := hr.split hroot
    rw [hbehind.unique (.top ht.top)] at heq
    exact ⟨front, heq⟩

theorem ancestorNames_top {k : List Nat} : ancestorNames s (k ++ [m, rootNode]) = (s.node m).name :: k.reverse.map fun n => (s.node n).name := by
  rw [ancestorNames, show k ++ [m, rootNode] = (k ++ [m]) ++ [rootNode] by simp, dropLast_concat, reverse_concat, map_cons]

theorem prefix_of_named (hd : Downwards s₀ s) (hbelow : ∀ n p, up s n = some p → Below s n) (hnamed : Named s) (hl : Chain (up s) n l) :
    (s.node n).nodePrefix = dotted (ancestorNames s l) := by
  rw [hd.nodePrefix n l hl]
  by_cases hnil : l = []
  · subst hnil
    rfl
  obtain ⟨k, rfl⟩ := chain_ends hd.tree hbelow hl hnil
  rcases eq_nil_or_concat k with rfl | ⟨k, m, rfl⟩
  · rfl
  have happend : k.concat m ++ [rootNode] = k ++ [m, rootNode] := by simp
  rw [happend] at hl ⊢
  rw [ancestorNames_top]
  cases hk : k.reverse with
  | nil => simp [builtPrefix, dotted, List.intercalate]
  | cons b rest =>
    refine (builtPrefix_eq_dotted ?_).1
    rintro a ⟨rfl⟩
    exact hnamed n k m hl fun h => by simp [h] at hk

theorem named_of_prefix (hd : Downwards s₀ s)
    (hdots : ∀ n l, Chain (up s) n l → (s.node n).nodePrefix = dotted (ancestorNames s l)) : Named s := by
  intro n k m hl hk hempty
  have heq := (hd.nodePrefix n _ hl).symm.trans (hdots n _ hl)
  rw [ancestorNames_top, hempty] at heq
  obtain ⟨b, rest, rfl⟩ := exists_cons_of_ne_nil hk
  rw [reverse_cons, map_append] at heq
  have hlt := @builtPrefix_length_lt (rest.reverse.map fun n => (s.node n).name) (s.node b).name
  exact absurd (congrArg List.length heq) (Nat.ne_of_lt hlt)

/-- Depth, prefix and permissions follow the tree exactly if every node was registered after its parent, and no son of
the root with an empty name has sons with sons. -/
theorem inherited_iff {calls : List (Option Nat × Nat)} (h : Unregistered s) (hbuild : Builds calls s) :
    Inherited s (registerAll calls s) ↔ Along ParentFirst calls s ∧ Named (registerAll calls s) := by
  have hdown : Along ParentFirst calls s → Downwards s (registerAll calls s) := downwards_run (downwards_init h) hbuild.fresh
  constructor
  · intro hin
    have hfirst := parentFirst_of_depth (fun n _ => h.depth n) hbuild hin.depth
    exact ⟨hfirst, named_of_prefix (hdown hfirst) hin.nodePrefix⟩
  · rintro ⟨hfirst, hnamed⟩
    have hd := hdown hfirst
    refine ⟨hd.depth, fun n l hl => prefix_of_named hd hbuild.tree hnamed hl, ?_⟩
    intro topnode path set node i s' hfound l hl m hm
    exact flag_above (hd.flags node l hl m hm) (found_flag hfound)

/-! ## A tree built downwards and one built upwards -/

theorem builds_of_parentFirst (h : Unregistered s) (hfresh : Along (fun s _ q => Fresh s q) calls s)
    (hfirst : Along ParentFirst calls s) : Builds calls s := by
  have hd := downwards_run (downwards_init h) hfresh hfirst
  exact ⟨hfresh, fun n p hp => (hd.parents n p hp).above hd.tree hp⟩

theorem registerAll_name : ((registerAll calls s).node n).name = (s.node n).name := by
  induction calls generalizing s with
  | nil => rfl
  | cons call calls ih =>
    refine ih.trans (registerNode_rule _ _ (P := fun t => (t.node n).name = _) (fun _ _ hsame => hsame.name) fun s' htakes hsame => ?_)
    rw [(attach_keeps htakes.1).1]
    exact hsame.name

/-- Nodes `n0`, `n1` and so on with one item each. -/
def numbered (rwFlags : Nat → UInt32) : Nodes Nat where
  node n := { configsInitNewNode (⟨[], [], false, 0, none, 0, [], none, 0, 0⟩ : MconfigNode Nat) ('n' :: (toString n).toList)
    (rwFlags n) with configs := some [⟨"dbg".toList, 0⟩] }
  count := 4

theorem numbered_spec (rwFlags : Nat → UInt32) : Unregistered (numbered rwFlags) :=
  ⟨Nat.succ_pos 3, fun _ => rfl, fun _ => rfl, fun _ => rfl, fun _ => rfl, fun _ => rfl, fun _ => rfl⟩

theorem numbered_downwards : Inherited (numbered fun _ => 3) (registerAll [(none, 1), (some 1, 2), (some 2, 3)] (numbered fun _ => 3)) := by
  have hfirst : Along ParentFirst [(none, 1), (some 1, 2), (some 2, 3)] (numbered fun _ => 3) := by decide +kernel
  have hfresh : Along (fun s _ q => Fresh s q) [(none, 1), (some 1, 2), (some 2, 3)] (numbered fun _ => 3) :=
    ⟨⟨by decide, by decide, rfl⟩, ⟨by decide, by decide, rfl⟩, ⟨by decide, by decide, rfl⟩, trivial⟩
  refine (inherited_iff (numbered_spec _) (builds_of_parentFirst (numbered_spec _) hfresh hfirst)).mpr ⟨hfirst, fun n l m _ _ => ?_⟩
  rw [registerAll_name]
  exact cons_ne_nil _ _

/-- The node `n1` may only be read. Its descendant `n3` was put below `n2` first, `n2` below `n1` next and `n1` below the
root last, and the item of `n3` can be written. -/
theorem numbered_upwards :
    ((configsGetNodePathConfig (registerAll [(some 2, 3), (some 1, 2), (none, 1)] (numbered fun n => if n = 1 then configForR else 3))
      none (some "n1.n2.n3.dbg".toList) true).map fun res => (res.1, res.2.1)) = some (0, some (3, 0)) ∧
    ((registerAll [(some 2, 3), (some 1, 2), (none, 1)] (numbered fun n => if n = 1 then configForR else 3)).node 3).depth = 1 ∧
    ((registerAll [(some 2, 3), (some 1, 2), (none, 1)] (numbered fun n => if n = 1 then configForR else 3)).node 3).nodePrefix = [] := by
  decide +kernel

end AmlogicV901d.Guarantees.ConfigInheritance
