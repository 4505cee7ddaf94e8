/-!
# Records with a number

Records in a list are found, changed and removed by their number. Sums over such a list
change by what happens to the one record.
-/
namespace AmlogicV901d.Lib.KeyedList

open List Function

variable {α : Type}

section Operations
variable (key : α → Nat)

def lookup (n : Nat) (l : List α) : Option α := l.find? fun a => key a = n

def update (n : Nat) (f : α → α) (l : List α) : List α := l.map fun a => if key a = n then f a else a

def remove (n : Nat) (l : List α) : List α := l.filter fun a => key a ≠ n

end Operations

def sumBy (w : α → Int) : List α → Int
  | [] => 0
  | a :: l => w a + sumBy w l

@[simp] theorem sumBy_nil (w : α → Int) : sumBy w [] = 0 := rfl

@[simp] theorem sumBy_cons (w : α → Int) (a : α) (l : List α) : sumBy w (a :: l) = w a + sumBy w l := rfl

@[simp] theorem sumBy_append (w : α → Int) (l l' : List α) : sumBy w (l ++ l') = sumBy w l + sumBy w l' := by
  induction l with
  | nil => simp
  | cons a l ih =>
    rw [cons_append, sumBy_cons, sumBy_cons, ih]
    omega

variable {l : List α}

theorem sumBy_congr {w w' : α → Int} (h : ∀ a ∈ l, w a = w' a) : sumBy w l = sumBy w' l := by
  induction l with
  | nil => rfl
  | cons a l ih =>
    rw [sumBy_cons, sumBy_cons, h a mem_cons_self, ih fun b hb => h b (mem_cons_of_mem a hb)]

theorem sumBy_zero {w : α → Int} (h : ∀ a ∈ l, w a = 0) : sumBy w l = 0 := by
  induction l with
  | nil => rfl
  | cons a l ih =>
    rw [sumBy_cons, h a mem_cons_self, ih fun b hb => h b (mem_cons_of_mem a hb)]
    rfl

theorem sumBy_nonneg {w : α → Int} (h : ∀ a ∈ l, 0 ≤ w a) : 0 ≤ sumBy w l := by
  induction l with
  | nil => exact Int.le_refl 0
  | cons a l ih =>
    exact Int.add_nonneg (h a mem_cons_self) (ih fun b hb => h b (mem_cons_of_mem a hb))

theorem sumBy_mono {w w' : α → Int} (h : ∀ a ∈ l, w a ≤ w' a) : sumBy w l ≤ sumBy w' l := by
  induction l with
  | nil => exact Int.le_refl 0
  | cons a l ih =>
    exact Int.add_le_add (h a mem_cons_self) (ih fun b hb => h b (.tail _ hb))

theorem count_flatMap {β : Type} [BEq β] (f : α → List β) (x : β) (l : List α) :
    ((l.flatMap f).count x : Int) = sumBy (fun a => ((f a).count x : Int)) l := by
  induction l with
  | nil => rfl
  | cons a l ih => rw [flatMap_cons, count_append, sumBy_cons, ← ih, Int.natCast_add]

theorem exists_of_sumBy_pos {w : α → Int} (h : 0 < sumBy w l) : ∃ a ∈ l, 0 < w a := by
  induction l with
  | nil => exact absurd h (Int.lt_irrefl 0)
  | cons a l ih =>
    by_cases ha : 0 < w a
    · exact ⟨a, .head _, ha⟩
    · rw [sumBy_cons] at h
      obtain ⟨b, hb, hw⟩ := ih (by omega)
      exact ⟨b, mem_cons_of_mem a hb, hw⟩

section Split
variable {key : α → Nat} {n : Nat} {l : List α} {a : α}

theorem key_of_lookup (h : lookup key n l = some a) : key a = n := by
  simpa using find?_some h

theorem mem_of_lookup (h : lookup key n l = some a) : a ∈ l := mem_of_find?_eq_some h

theorem lookup_split (hd : (l.map key).Nodup) (h : lookup key n l = some a) :
    ∃ front behind, l = front ++ a :: behind ∧ (∀ b ∈ front, key b ≠ n) ∧ ∀ b ∈ behind, key b ≠ n := by
  obtain ⟨ha, front, behind, rfl, hfront⟩ := find?_eq_some_iff_append.mp h
  have hkey := key_of_lookup h
  refine ⟨front, behind, rfl, fun b hb => by simpa using hfront b hb, fun b hb heq => ?_⟩
  rw [map_append, map_cons, nodup_append] at hd
  have hbehind := (nodup_cons.mp hd.2.1).1
  exact hbehind (mem_map.mpr ⟨b, hb, heq.trans hkey.symm⟩)

theorem lookup_of_mem (hd : (l.map key).Nodup) (h : a ∈ l) : lookup key (key a) l = some a := by
  obtain ⟨found, hfound⟩ := Option.isSome_iff_exists.mp
    (find?_isSome.mpr ⟨a, h, decide_eq_true rfl⟩ : (lookup key (key a) l).isSome)
  obtain ⟨front, behind, rfl, hfront, hbehind⟩ := lookup_split hd hfound
  rcases mem_append.mp h with hin | hin
  · exact absurd rfl (hfront a hin)
  · rcases mem_cons.mp hin with rfl | hin
    · exact hfound
    · exact absurd rfl (hbehind a hin)

theorem eq_of_lookup {b : α} (hd : (l.map key).Nodup) (h : lookup key n l = some a) (hb : b ∈ l) (hkey : key b = n) : b = a :=
  Option.some.inj ((lookup_of_mem hd hb).symm.trans (hkey ▸ h))

theorem lookup_eq_none : lookup key n l = none ↔ ∀ b ∈ l, key b ≠ n := by
  rw [lookup, find?_eq_none]
  simp

theorem map_eq_self {f : α → α} (h : ∀ b ∈ l, key b ≠ n) : l.map (fun b => if key b = n then f b else b) = l :=
  (map_congr_left fun b hb => if_neg (h b hb)).trans (map_id' l)

theorem update_split {front behind : List α} (f : α → α) (ha : key a = n) (hfront : ∀ b ∈ front, key b ≠ n)
    (hbehind : ∀ b ∈ behind, key b ≠ n) : update key n f (front ++ a :: behind) = front ++ f a :: behind := by
  rw [update, map_append, map_cons, if_pos ha, map_eq_self hfront, map_eq_self hbehind]

theorem remove_split {front behind : List α} (ha : key a = n) (hfront : ∀ b ∈ front, key b ≠ n)
    (hbehind : ∀ b ∈ behind, key b ≠ n) : remove key n (front ++ a :: behind) = front ++ behind := by
  rw [remove, filter_append, filter_cons_of_neg (by simpa using ha),
    filter_eq_self.mpr (by simpa using hfront), filter_eq_self.mpr (by simpa using hbehind)]

theorem update_of_none (f : α → α) (h : lookup key n l = none) : update key n f l = l :=
  map_eq_self (lookup_eq_none.mp h)

theorem sumBy_update (w : α → Int) (f : α → α) (hd : (l.map key).Nodup) (h : lookup key n l = some a) :
    sumBy w (update key n f l) = sumBy w l - w a + w (f a) := by
  obtain ⟨front, behind, rfl, hfront, hbehind⟩ := lookup_split hd h
  rw [update_split f (key_of_lookup h) hfront hbehind]
  simp only [sumBy_append, sumBy_cons]
  omega

theorem sumBy_remove (w : α → Int) (hd : (l.map key).Nodup) (h : lookup key n l = some a) :
    sumBy w (remove key n l) = sumBy w l - w a := by
  obtain ⟨front, behind, rfl, hfront, hbehind⟩ := lookup_split hd h
  rw [remove_split (key_of_lookup h) hfront hbehind]
  simp only [sumBy_append, sumBy_cons]
  omega

theorem sumBy_erase [DecidableEq α] (w : α → Int) (h : a ∈ l) : sumBy w (l.erase a) = sumBy w l - w a := by
  induction l with
  | nil => exact nomatch h
  | cons b l ih =>
    by_cases hb : b = a
    · subst hb
      rw [erase_cons_head, sumBy_cons]
      omega
    · rw [erase_cons_tail (by simpa using hb), sumBy_cons, sumBy_cons,
        ih ((mem_cons.mp h).resolve_left (Ne.symm hb))]
      omega

theorem le_sumBy {w : α → Int} (h : a ∈ l) (hw : ∀ b ∈ l, 0 ≤ w b) : w a ≤ sumBy w l := by
  induction l with
  | nil => exact nomatch h
  | cons b l ih =>
    have hrest := sumBy_nonneg fun c hc => hw c (mem_cons_of_mem b hc)
    have hb := hw b mem_cons_self
    rw [sumBy_cons]
    rcases mem_cons.mp h with rfl | hin
    · omega
    · have := ih hin fun c hc => hw c (mem_cons_of_mem b hc)
      omega

theorem add_le_sumBy {w : α → Int} {b : α} (ha : a ∈ l) (hb : b ∈ l) (hne : a ≠ b)
    (hw : ∀ c ∈ l, 0 ≤ w c) : w a + w b ≤ sumBy w l := by
  induction l with
  | nil => exact nomatch ha
  | cons c l ih =>
    have htail : ∀ d ∈ l, 0 ≤ w d := fun d hd => hw d (mem_cons_of_mem c hd)
    have hc := hw c mem_cons_self
    rw [sumBy_cons]
    rcases mem_cons.mp ha with rfl | hain <;> rcases mem_cons.mp hb with rfl | hbin
    · exact absurd rfl hne
    · have := le_sumBy hbin htail
      omega
    · have := le_sumBy hain htail
      omega
    · have := ih hain hbin htail
      omega

variable {f : α → α}

theorem mem_update {b : α} (h : b ∈ update key n f l) : b ∈ l ∧ key b ≠ n ∨ ∃ c ∈ l, key c = n ∧ f c = b := by
  obtain ⟨c, hc, rfl⟩ := mem_map.mp h
  split
  next heq => exact .inr ⟨c, hc, heq, rfl⟩
  next hne => exact .inl ⟨hc, hne⟩

theorem mem_remove {b : α} : b ∈ remove key n l ↔ b ∈ l ∧ key b ≠ n := by
  rw [remove, mem_filter]
  simp

theorem forall_update {P : α → Prop} (hall : ∀ b ∈ l, P b) (hf : ∀ b ∈ l, key b = n → P (f b)) :
    ∀ b ∈ update key n f l, P b := by
  intro b hb
  obtain ⟨hin, _⟩ | ⟨c, hc, hn, rfl⟩ := mem_update hb
  · exact hall b hin
  · exact hf c hc hn

theorem keys_update_nodup (hf : ∀ b, key b = n → key (f b) = n) (hd : (l.map key).Nodup) : ((update key n f l).map key).Nodup := by
  suffices (update key n f l).map key = l.map key by rwa [this]
  rw [update, map_map]
  refine map_congr_left fun b _ => ?_
  dsimp only [comp]
  split
  next heq => rw [hf b heq, heq]
  next => rfl

theorem keys_remove_nodup (hd : (l.map key).Nodup) : ((remove key n l).map key).Nodup :=
  hd.sublist (List.Sublist.map key filter_sublist)

theorem mem_update_self (h : a ∈ l) (ha : key a = n) : f a ∈ update key n f l :=
  mem_map.mpr ⟨a, h, if_pos ha⟩

theorem mem_update_ne (h : a ∈ l) (ha : key a ≠ n) : a ∈ update key n f l :=
  mem_map.mpr ⟨a, h, if_neg ha⟩

theorem update_self (l : List α) : update key n (fun b => b) l = l := by
  simp only [update, ite_self, map_id']

theorem update_congr {g : α → α} (h : ∀ b ∈ l, key b = n → f b = g b) : update key n f l = update key n g l :=
  map_congr_left fun b hb => by
    split
    next hkey => exact h b hb hkey
    next => rfl

theorem update_update {g : α → α} (hf : ∀ b, key b = n → key (f b) = n) :
    update key n g (update key n f l) = update key n (fun b => g (f b)) l := by
  rw [update, update, map_map]
  refine map_congr_left fun b _ => ?_
  by_cases hb : key b = n
  · simp only [comp, if_pos hb, if_pos (hf b hb)]
  · simp only [comp, if_neg hb]

theorem update_comm {k : Nat} {g : α → α} (hf : ∀ b, key b = n → key (f b) = n) (hg : ∀ b, key b = k → key (g b) = k)
    (hne : k ≠ n) : update key k g (update key n f l) = update key n f (update key k g l) := by
  rw [update, update, update, update, map_map, map_map]
  refine map_congr_left fun b _ => ?_
  by_cases hb : key b = n
  · have hfb : key (f b) ≠ k := fun heq => hne (heq.symm.trans (hf b hb))
    have hbk : key b ≠ k := fun heq => hne (heq.symm.trans hb)
    simp only [comp, if_pos hb, if_neg hfb, if_neg hbk]
  by_cases hk : key b = k
  · have hgb : key (g b) ≠ n := fun heq => hne ((hg b hk).symm.trans heq)
    simp only [comp, if_neg hb, if_pos hk, if_neg hgb]
  · simp only [comp, if_neg hb, if_neg hk]

theorem remove_update (hf : ∀ b, key b = n → key (f b) = n) : remove key n (update key n f l) = remove key n l := by
  induction l with
  | nil => rfl
  | cons b l ih =>
    simp only [remove, update, map_cons] at ih ⊢
    by_cases hb : key b = n
    · rw [if_pos hb, filter_cons_of_neg (by simpa using hf b hb), filter_cons_of_neg (by simpa using hb), ih]
    · rw [if_neg hb, filter_cons_of_pos (by simpa using hb), filter_cons_of_pos (by simpa using hb), ih]

theorem lookup_update_self (hf : key (f a) = n) (hd : (l.map key).Nodup) (h : lookup key n l = some a) :
    lookup key n (update key n f l) = some (f a) := by
  obtain ⟨front, behind, rfl, hfront, hbehind⟩ := lookup_split hd h
  rw [update_split f (key_of_lookup h) hfront hbehind, lookup, find?_append,
    find?_eq_none.mpr (by simpa using hfront), Option.none_or, find?_cons_of_pos (by simpa using hf)]

theorem lookup_update_ne {m : Nat} (hf : ∀ b, key b = n → key (f b) = n) (hne : m ≠ n) :
    lookup key m (update key n f l) = lookup key m l := by
  induction l with
  | nil => rfl
  | cons b l ih =>
    simp only [lookup, update, map_cons] at ih ⊢
    by_cases hb : key b = n
    · have hfb : key (f b) ≠ m := fun heq => hne (heq.symm.trans (hf b hb))
      have hbm : key b ≠ m := fun heq => hne (heq.symm.trans hb)
      rw [if_pos hb, find?_cons_of_neg (by simpa using hfb), find?_cons_of_neg (by simpa using hbm)]
      exact ih
    · rw [if_neg hb, find?_cons, find?_cons]
      split
      · rfl
      · exact ih

theorem lookup_map {g : α → α} (hg : ∀ b, key (g b) = key b) : lookup key n (l.map g) = (lookup key n l).map g := by
  rw [lookup, lookup, find?_map]
  congr 2
  funext b
  exact congrArg (fun k => decide (k = n)) (hg b)

theorem keys_append_nodup {b : α} (hd : (l.map key).Nodup) (hnew : ∀ c ∈ l, key c ≠ key b) :
    ((l ++ [b]).map key).Nodup := by
  rw [map_append, map_singleton, nodup_append]
  refine ⟨hd, by simp, fun k hk k' hk' heq => ?_⟩
  obtain ⟨c, hc, rfl⟩ := mem_map.mp hk
  exact hnew c hc (heq.trans (mem_singleton.mp hk'))

theorem forall_append_single {P : α → Prop} {b : α} (hall : ∀ c ∈ l, P c) (hb : P b) : ∀ c ∈ l ++ [b], P c :=
  forall_mem_append.mpr ⟨hall, forall_mem_singleton.mpr hb⟩

theorem lookup_append_new {b : α} (hnew : ∀ c ∈ l, key c ≠ key b) : lookup key (key b) (l ++ [b]) = some b := by
  rw [lookup, find?_append, find?_eq_none.mpr (by simpa using hnew), Option.none_or,
    find?_cons_of_pos (by simp)]

end Split

end AmlogicV901d.Lib.KeyedList
