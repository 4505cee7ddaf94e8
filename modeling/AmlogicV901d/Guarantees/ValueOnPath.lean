import AmlogicV901d.Source.Configs

/-!
# A value on the path or beside it

The splitter looks for its next dot in all that is left of the text, so a dot in the value makes a
name of the last component and of the value up to the dot.
-/
namespace AmlogicV901d.Guarantees.ValueOnPath
open Source.Configs List

def Component (name : List Char) : Prop :=
  name ≠ [] ∧ name.length < maxItemName ∧ ∀ c ∈ name, c ≠ '.' ∧ c ≠ '=' ∧ isBlank c = false

/-- The components of a path with dots between them. -/
def joined (names : List (List Char)) (last : List Char) : List Char := names.flatMap (· ++ ['.']) ++ last

/-- For every tree and every path, both ways to set the value have one result and leave one tree. -/
def Agrees (v : List Char) : Prop :=
  ∀ (V : Type) (ops : ValueOps V) (s : Nodes V) (topnode : Option Nat) (names : List (List Char)) (last : List Char),
    (∀ name ∈ names, Component name) → Component last →
      configsSetNodePathValonpath ops s topnode (joined names last ++ '=' :: v) =
        configsSetNodePathStr ops s topnode (some (joined names last)) (some v)

variable {name last rest v : List Char} {names : List (List Char)} {isEnd : Bool}

theorem firstNode_eq (h : Component name) (hend : (!(name ++ rest).contains '.') = isEnd)
    (hstop : rest.takeWhile (· != if isEnd then '=' else '.') = []) :
    configsParserFirstNode (name ++ rest) = (name.length, name, isEnd) := by
  obtain ⟨_, hlen, hchars⟩ := h
  have hsep : ∀ c ∈ name, (c != if isEnd then '=' else '.') = true := by
    intro c hc
    cases isEnd <;> simp [hchars c hc]
  have hword : name.takeWhile (!isBlank ·) = name := by
    have hblank : ∀ c ∈ name, (!isBlank c) = true := fun c hc => by simp [(hchars c hc).2.2]
    have hall : (name ++ []).takeWhile (!isBlank ·) = name ++ [].takeWhile (!isBlank ·) := takeWhile_append_of_pos hblank
    rwa [append_nil, takeWhile_nil, append_nil] at hall
  have hsize : (if name.length ≥ maxItemName - 1 then maxItemName - 1 else name.length) = name.length := by
    rw [maxItemName] at *
    split <;> omega
  rw [configsParserFirstNode, hend]
  rw [takeWhile_append_of_pos hsep, hstop, append_nil, hsize, take_left, hword]

/-- What stands behind the path is not looked at if there is no dot in it. -/
theorem parsePath_joined {fuel : Nat} (hnames : ∀ name ∈ names, Component name) (hlast : Component last)
    (hrest : rest.takeWhile (· != '=') = []) (hdot : '.' ∉ rest) (hfuel : names.length < fuel) :
    parsePath fuel (joined names last ++ rest) = (names, some last) := by
  induction names generalizing fuel with
  | nil =>
    obtain ⟨fuel, rfl⟩ := Nat.exists_eq_succ_of_ne_zero (Nat.ne_of_gt hfuel)
    have hend : (!(last ++ rest).contains '.') = true := by
      simpa using ⟨fun h => (hlast.2.2 _ h).1 rfl, hdot⟩
    rw [joined, flatMap_nil, nil_append, parsePath, firstNode_eq hlast hend hrest]
    simp [hlast.1]
  | cons name names ih =>
    obtain ⟨fuel, rfl⟩ := Nat.exists_eq_succ_of_ne_zero (Nat.ne_of_gt (Nat.zero_lt_of_lt hfuel))
    have hname := hnames name (.head _)
    have hsplit : joined (name :: names) last ++ rest = name ++ '.' :: (joined names last ++ rest) := by simp [joined]
    have hmore : (!(name ++ '.' :: (joined names last ++ rest)).contains '.') = false := by simp
    rw [hsplit, parsePath, firstNode_eq hname hmore (by simp)]
    simp [hname.1, ih (fun name h => hnames name (.tail _ h)) (Nat.lt_of_succ_lt_succ hfuel)]

theorem length_joined (hlast : last ≠ []) : names.length < (joined names last).length := by
  induction names with
  | nil => exact length_pos_iff.mpr hlast
  | cons name names ih =>
    rw [joined, length_append] at ih ⊢
    rw [flatMap_cons, length_append, length_append, length_singleton, length_cons]
    omega

theorem agrees_of_no_dot (hdot : '.' ∉ v) : Agrees v := by
  intro V ops s topnode names last hnames hlast
  have hequals : ∀ c ∈ joined names last, (c != '=') = true := by
    simp only [joined, mem_append, mem_flatMap, mem_singleton, bne_iff_ne]
    rintro c (⟨name, hname, hc | rfl⟩ | hc)
    · exact ((hnames name hname).2.2 c hc).2.1
    · decide
    · exact (hlast.2.2 c hc).2.1
  have hval : configsParserStrValstr (joined names last ++ '=' :: v) = some v := by
    rw [configsParserStrValstr, if_pos (by simp), dropWhile_append_of_pos hequals]
    simp
  have hlen := @length_joined last names hlast.1
  have hne : joined names last ≠ [] := ne_nil_of_length_pos (Nat.zero_lt_of_lt hlen)
  have hwith := @parsePath_joined last ('=' :: v) names (joined names last ++ '=' :: v).length hnames hlast (by simp)
    (by simpa using hdot) (by rw [length_append]; omega)
  have hplain := @parsePath_joined last [] names (joined names last).length hnames hlast rfl not_mem_nil hlen
  rw [append_nil] at hplain
  simp only [configsSetNodePathValonpath, configsSetNodePathStr, hval, Option.getD_some, append_eq_nil_iff, hne, false_and, false_or,
    onPathConfig, configsGetNodePathConfig, hwith, hplain]

/-- A root with one item that takes every value. -/
def single : Nodes Unit := ⟨fun _ => ⟨[], [], true, 0, none, 0, [], some [⟨['a'], ()⟩], 0, 3⟩, 1⟩

def anyValue : ValueOps Unit := ⟨fun v _ => (v, 1), fun _ _ => 0, fun v _ _ => (v, 0), fun _ _ => 0, fun _ _ _ _ => 0⟩

theorem not_agrees_of_dot (hdot : '.' ∈ v) : ¬ Agrees v := by
  intro h
  have hv : v ≠ [] := ne_nil_of_mem hdot
  -- what is left has a dot, so the item is never the last component
  have hend : (configsParserFirstNode ('a' :: '=' :: v)).2.2 = false := by simp [configsParserFirstNode, hdot]
  have hparse : parsePath (v.length + 2) ('a' :: '=' :: v) = ([], none) ∨
      ∃ name names last, parsePath (v.length + 2) ('a' :: '=' :: v) = (name :: names, last) := by
    rw [parsePath]
    dsimp only
    split
    · exact .inl rfl
    · rw [hend]
      exact .inr ⟨_, _, _, rfl⟩
  have hval : configsParserStrValstr ('a' :: '=' :: v) = some v := by simp [configsParserStrValstr]
  have hset : (configsSetNodePathStr anyValue single none (some ['a']) (some v)).map Prod.fst = some 0 := by
    rw [configsSetNodePathStr, if_neg (by simpa using hv)]
    rfl
  have heq : configsSetNodePathValonpath anyValue single none ('a' :: '=' :: v) = _ :=
    h Unit anyValue single none [] ['a'] nofun
      ⟨by simp, by decide, fun c hc => by rw [mem_singleton.mp hc]; decide⟩
  rw [joined, flatMap_nil, nil_append] at heq
  rw [← heq] at hset
  simp only [configsSetNodePathValonpath, configsSetNodePathStr, hval, Option.getD_some, cons_ne_nil, hv, or_self, if_false,
    onPathConfig, configsGetNodePathConfig, length_cons] at hset
  rcases hparse with hparse | ⟨name, names, last, hparse⟩
  all_goals
    rw [hparse] at hset
    exact nomatch hset

/-- A value can be put on the path of every item of every tree exactly if it has no dot. -/
theorem value_on_path_iff (v : List Char) : Agrees v ↔ '.' ∉ v :=
  ⟨fun h hdot => not_agrees_of_dot hdot h, agrees_of_no_dot⟩

theorem dotted_value_not_set : ¬ Agrees "1.5".toList := not_agrees_of_dot (by decide)

end AmlogicV901d.Guarantees.ValueOnPath
