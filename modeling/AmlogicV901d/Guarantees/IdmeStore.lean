import AmlogicV901d.Source.Idme.Operations

/-!
# IDME items behave as a map from names to values

Runs of `idme_update_var_v2p0` (cmd_idme_v2_0.c:299-332) over an image built by
`idme_init_var_v2p0` (cmd_idme_v2_0.c:230-263). The run invariant `HoldsRun` says
that the image decodes to the default table with each item's data replaced by
the last value written under its name; one update preserves it, and reads and
frames are consequences.
-/
namespace AmlogicV901d.Guarantees.IdmeStore
open Lib.ByteMemory Lib.Strings Source.Idme List

variable {table : List IdmeInitValues} {run : List VarUpdate} {m : Memory} {e : IdmeInitValues} {u : VarUpdate}
  {name : CString} {j k : Nat}

structure VarUpdate where
  name : CString
  value : Memory
  length : UInt32

def applyUpdate (m : Memory) (u : VarUpdate) : Memory :=
  (idmeUpdateVarV2p0 u.name (some u.value) u.length (some m)).2.getD m

def runUpdates (m : Memory) (run : List VarUpdate) : Memory := run.foldl applyUpdate m

/-- The bytes an entry holds after a run: the last value written under its name
cut to the size and zero padded, or the default value. -/
def lastValue (e : IdmeInitValues) (run : List VarUpdate) : List UInt8 :=
  match run.reverse.find? (fun u => u.name = e.name) with
  | some u => padTo e.size.toNat (load u.value 0 (min e.size.toNat u.length.toNat))
  | none => padTo e.size.toNat e.value.bytes

def itemAfter (run : List VarUpdate) (e : IdmeInitValues) : IdmeItem :=
  ⟨e.name.bytes, e.size, e.exportable, e.permission, lastValue e run⟩

/-- Start of the `k`-th item of a table in its image. -/
def itemOffset (table : List IdmeInitValues) (k : Nat) : Nat :=
  16 + ((table.take k).map fun e => stride e.size).sum

structure HoldsRun (table : List IdmeInitValues) (run : List VarUpdate) (m : Memory) : Prop where
  magic : load m 0 8 = idmeMagicNumber
  items : idmeItems m = table.map (itemAfter run)

/-- Everything but the data of the named item: the header, all descriptors, the
data of the other items and the rest of the buffer. -/
structure OnlyItemData (table : List IdmeInitValues) (name : CString) (m m' : Memory) : Prop where
  header : ∀ a, a < 16 → m' a = m a
  descriptors : ∀ k, k < table.length → ∀ i, i < 28 → m' (itemOffset table k + i) = m (itemOffset table k + i)
  otherData : ∀ k (hk : k < table.length), table[k].name ≠ name → ∀ i, i < table[k].size.toNat →
    m' (itemOffset table k + 28 + i) = m (itemOffset table k + 28 + i)
  outside : ∀ a, (∀ k (hk : k < table.length), table[k].name = name →
    a < itemOffset table k + 28 ∨ itemOffset table k + 28 + table[k].size.toNat ≤ a) → m' a = m a

theorem lastValue_append_same (h : u.name = e.name) : lastValue e (run ++ [u]) =
      padTo e.size.toNat (load u.value 0 (min e.size.toNat u.length.toNat)) := by
  simp [lastValue, h]

theorem lastValue_append_other (h : u.name ≠ e.name) : lastValue e (run ++ [u]) = lastValue e run := by
  simp [lastValue, h]

theorem HoldsRun.namesTerminated
    (h : HoldsRun table run m) (hnames : NamesShort table) : NamesTerminated (idmeItems m) := by
  intro it hit
  rw [h.items] at hit
  obtain ⟨e, he, rfl⟩ := mem_map.mp hit
  exact (hnames e he).2

theorem cstring_ext {s t : CString} (h : s.bytes = t.bytes) : s = t := by
  cases s
  cases t
  simpa using h

theorem lookup_itemAfter : lookupItem name (table.map (itemAfter run)) =
      (table.find? (fun e => e.name = name)).map (itemAfter run) := by
  induction table with
  | nil => rfl
  | cons e rest ih =>
    by_cases h : e.name = name
    · simp [lookupItem, itemAfter, h]
    have hb : e.name.bytes ≠ name.bytes := fun hb => h (cstring_ext hb)
    have hi : (itemAfter run e).name ≠ name.bytes := hb
    simp only [lookupItem, map_cons, find?_cons, hi, h, decide_false] at ih ⊢
    exact ih

theorem itemAfter_unknown (h : u.name ∉ table.map (·.name)) :
    table.map (itemAfter (run ++ [u])) = table.map (itemAfter run) := by
  apply map_congr_left
  intro e he
  have hne : u.name ≠ e.name := fun heq => h (mem_map.mpr ⟨e, he, heq.symm⟩)
  rw [itemAfter, itemAfter, lastValue_append_other hne]

theorem assign_itemAfter (hdistinct : (table.map (·.name)).Nodup) :
    assignItem u.name (updatedData u.value u.length) (table.map (itemAfter run)) =
      table.map (itemAfter (run ++ [u])) := by
  induction table with
  | nil => rfl
  | cons e rest ih =>
    have hnodup := nodup_cons.mp hdistinct
    by_cases h : e.name = u.name
    · have hrest : u.name ∉ rest.map (·.name) := h ▸ hnodup.1
      have hhead : itemAfter (run ++ [u]) e =
          { itemAfter run e with data := updatedData u.value u.length (itemAfter run e) } := by
        rw [itemAfter, lastValue_append_same h.symm]
        rfl
      have hb : (itemAfter run e).name = u.name.bytes := congrArg CString.bytes h
      rw [map_cons, map_cons, assignItem, if_pos hb, itemAfter_unknown hrest, hhead]
    · have hb : (itemAfter run e).name ≠ u.name.bytes := fun hb => h (cstring_ext hb)
      have hhead : itemAfter (run ++ [u]) e = itemAfter run e := by
        rw [itemAfter, itemAfter, lastValue_append_other (.symm h)]
      simp only [map_cons, assignItem, hb, if_false, ih hnodup.2, hhead]

theorem find_isSome_iff : (table.find? (fun e => e.name = name)).isSome ↔ name ∈ table.map (·.name) := by
  simp [find?_isSome]

theorem find_entry (hdistinct : (table.map (·.name)).Nodup) (he : e ∈ table) :
    table.find? (fun x => x.name = e.name) = some e := by
  obtain ⟨i, hi, rfl⟩ := mem_iff_getElem.mp he
  rw [find?_eq_some_iff_getElem]
  refine ⟨by simp, i, hi, rfl, fun j hj => ?_⟩
  have hne := pairwise_iff_getElem.mp (pairwise_map.mp hdistinct) j i
    (Nat.lt_trans hj hi) hi hj
  simpa using hne

theorem HoldsRun.lookup_none_iff (h : HoldsRun table run m) :
    lookupItem name (idmeItems m) = none ↔ name ∉ table.map (·.name) := by
  rw [h.items, lookup_itemAfter, Option.map_eq_none_iff, ← find_isSome_iff, Option.not_isSome_iff_eq_none]

theorem HoldsRun.step (h : HoldsRun table run m) (hnames : NamesShort table) (hdistinct : (table.map (·.name)).Nodup)
    (u : VarUpdate) : HoldsRun table (run ++ [u]) (applyUpdate m u) := by
  rcases idmeUpdateVar_spec u.name u.value u.length m h.magic (h.namesTerminated hnames) with
    ⟨hnone, hcall⟩ | ⟨q, m', hfind, _, hcall, hframe, hitems⟩
  · have hsame : applyUpdate m u = m := by simp [applyUpdate, hcall]
    rw [hsame]
    refine ⟨h.magic, ?_⟩
    rw [h.items, itemAfter_unknown (h.lookup_none_iff.mp hnone)]
  · have hnew : applyUpdate m u = m' := by simp [applyUpdate, hcall]
    rw [hnew]
    refine ⟨?_, ?_⟩
    · rw [load_congr (fun i hi => hframe _ (by omega))]
      exact h.magic
    · rw [hitems, h.items, assign_itemAfter hdistinct]

theorem HoldsRun.runUpdates (hnames : NamesShort table) (hdistinct : (table.map (·.name)).Nodup)
    (run done : List VarUpdate) (h : HoldsRun table done m) : HoldsRun table (done ++ run) (runUpdates m run) := by
  induction run generalizing m done with
  | nil => simpa [IdmeStore.runUpdates] using h
  | cons u rest ih =>
    have hstep := ih (done ++ [u]) (h.step hnames hdistinct u)
    simpa [IdmeStore.runUpdates] using hstep

theorem idmeFindItem_offset {name : CString} {count p q : Nat} (h : idmeFindItem name m count p = some q) :
    ∃ k, (itemsFrom m count p)[k]? = some (itemAt m q) ∧
      q = p + (((itemsFrom m count p).take k).map fun it => stride it.size).sum := by
  fun_induction idmeFindItem name m count p with
  | case1 => cases h
  | case2 =>
    cases h
    exact ⟨0, by simp [itemsFrom], by simp⟩
  | case3 _ _ _ ih =>
    obtain ⟨k, hget, hq⟩ := ih h
    refine ⟨k + 1, by simpa [itemsFrom] using hget, ?_⟩
    rw [hq, itemsFrom, take_succ_cons, map_cons, sum_cons, ← Nat.add_assoc]
    rfl

theorem itemOffset_succ (hk : k < table.length) :
    itemOffset table (k + 1) = itemOffset table k + stride table[k].size := by
  rw [itemOffset, itemOffset, take_add_one, getElem?_eq_getElem hk, map_append,
    sum_append, Nat.add_assoc]
  rfl

theorem itemOffset_mono (h : j ≤ k) : itemOffset table j ≤ itemOffset table k := by
  induction k with
  | zero => simp [Nat.le_zero.mp h]
  | succ k ih =>
    rcases Nat.lt_or_ge k j with hj | hj
    · rw [Nat.le_antisymm h hj]
    have hstep : itemOffset table k ≤ itemOffset table (k + 1) := by
      by_cases hk : k < table.length
      · rw [itemOffset_succ hk]
        exact Nat.le_add_right _ _
      · have ht : table.take (k + 1) = table.take k := by
          rw [take_of_length_le (by omega), take_of_length_le (by omega)]
        rw [itemOffset, itemOffset, ht]
    exact Nat.le_trans (ih hj) hstep

theorem itemOffset_separate (hj : j < table.length) (h : j < k) :
    itemOffset table j + 28 + table[j].size.toNat ≤ itemOffset table k := by
  have hstep := itemOffset_succ hj
  have hmono := @itemOffset_mono table (j + 1) k h
  have hstride := stride_ge table[j].size
  omega

/-- A write confined to the data of item `k` leaves the header, the descriptors
and the other items alone. -/
theorem onlyItemData_of_frame {m' : Memory} (hk : k < table.length) (hname : table[k].name = name)
    (hframe : ∀ a, a < itemOffset table k + 28 ∨ itemOffset table k + 28 + table[k].size.toNat ≤ a → m' a = m a) :
    OnlyItemData table name m m' := by
  refine ⟨fun a ha => hframe a (by omega), ?_, ?_, fun a ha => hframe a (ha k hk hname)⟩
  · intro j hj i hi
    apply hframe
    rcases Nat.lt_trichotomy j k with hlt | rfl | hgt
    · have := itemOffset_separate hj hlt
      omega
    · omega
    · have := itemOffset_separate hk hgt
      omega
  · intro j hj hne i hi
    apply hframe
    rcases Nat.lt_trichotomy j k with hlt | rfl | hgt
    · have := itemOffset_separate hj hlt
      omega
    · exact absurd hname hne
    · have := itemOffset_separate hk hgt
      omega

section
variable (h : HoldsRun table run m) (hnames : NamesShort table)
include h hnames

/-- The update of a known name on an image that holds a run. -/
theorem HoldsRun.update_known (hknown : u.name ∈ table.map (·.name)) :
    ∃ m', idmeUpdateVarV2p0 u.name (some u.value) u.length (some m) = (0, some m') ∧
      OnlyItemData table u.name m m' := by
  rcases idmeUpdateVar_spec u.name u.value u.length m h.magic (h.namesTerminated hnames) with
    ⟨hnone, _⟩ | ⟨q, m', hfind, hlook, hcall, hframe, _⟩
  · exact absurd hknown (h.lookup_none_iff.mp hnone)
  · refine ⟨m', hcall, ?_⟩
    obtain ⟨k, hget, hq⟩ := idmeFindItem_offset hfind
    have hitems : itemsFrom m (itemsNum m).toNat 16 = table.map (itemAfter run) := h.items
    rw [hitems] at hget hq
    have hk : k < table.length := by
      have := (List.getElem?_eq_some_iff.mp hget).1
      simpa using this
    have hitem : itemAt m q = itemAfter run table[k] := by
      rw [getElem?_map, getElem?_eq_getElem hk] at hget
      simpa using hget.symm
    have hname : table[k].name = u.name := by
      have hfound := lookupItem_name hlook
      rw [hitem] at hfound
      exact cstring_ext hfound
    have hsize : descSize m q = table[k].size := congrArg IdmeItem.size hitem
    have hoff : q = itemOffset table k := by
      rw [hq, itemOffset, ← map_take, map_map]
      rfl
    apply onlyItemData_of_frame hk hname
    rw [← hoff, ← hsize]
    exact hframe

theorem HoldsRun.update_unknown (hunknown : u.name ∉ table.map (·.name)) :
    idmeUpdateVarV2p0 u.name (some u.value) u.length (some m) = (-1, some m) := by
  rcases idmeUpdateVar_spec u.name u.value u.length m h.magic (h.namesTerminated hnames) with
    ⟨_, hcall⟩ | ⟨q, m', _, hlook, _⟩
  · exact hcall
  · rw [h.lookup_none_iff.mpr hunknown] at hlook
    cases hlook

theorem HoldsRun.getVar (buf : Memory) (n : UInt32) : idmeGetVarV2p0 name (some buf) n (some m) =
      match table.find? (fun e => e.name = name) with
      | none => (-1, some buf)
      | some e => (0, some (store buf 0 ((lastValue e run).take n.toNat))) := by
  rw [idmeGetVar_spec name buf n m h.magic (h.namesTerminated hnames), h.items, lookup_itemAfter]
  cases table.find? (fun e => e.name = name) <;> rfl

end

/-- Reads and writes of the item store over every run of updates. -/
theorem idme_items_are_a_map (table : List IdmeInitValues) (data : Memory) (hnames : NamesShort table)
    (hdistinct : (table.map (·.name)).Nodup) (hfits : TableFits configIdmeSize 16 table) :
    ∃ m₀, idmeInitVarV2p0 table data = some (0, m₀) ∧ ∀ run : List VarUpdate, (∀ name buf n,
        ((idmeGetVarV2p0 name (some buf) n (some (runUpdates m₀ run))).1 = 0 ↔ name ∈ table.map (·.name)) ∧
        ∀ e ∈ table, e.name = name → idmeGetVarV2p0 name (some buf) n (some (runUpdates m₀ run)) =
            (0, some (store buf 0 ((lastValue e run).take n.toNat)))) ∧ (∀ u : VarUpdate, u.name ∉ table.map (·.name) →
        idmeUpdateVarV2p0 u.name (some u.value) u.length (some (runUpdates m₀ run)) = (-1, some (runUpdates m₀ run))) ∧
      (∀ u : VarUpdate, u.name ∈ table.map (·.name) →
        ∃ m', idmeUpdateVarV2p0 u.name (some u.value) u.length (some (runUpdates m₀ run)) =
            (0, some m') ∧ OnlyItemData table u.name (runUpdates m₀ run) m') := by
  obtain ⟨m₀, hinit, hmagic, _, hitems⟩ := idmeInitVar_spec table data hnames hfits
  refine ⟨m₀, hinit, fun run => ?_⟩
  have h₀ : HoldsRun table [] m₀ := ⟨hmagic, hitems⟩
  have h : HoldsRun table run (runUpdates m₀ run) :=
    h₀.runUpdates hnames hdistinct run []
  generalize runUpdates m₀ run = m at h
  refine ⟨fun name buf n => ⟨?_, ?_⟩, fun u hu => h.update_unknown hnames hu, fun u hu => h.update_known hnames hu⟩
  · rw [h.getVar hnames, ← find_isSome_iff]
    cases table.find? (fun e => e.name = name) <;> simp
  · rintro e he rfl
    rw [h.getVar hnames, find_entry hdistinct he]

def sampleTable : List IdmeInitValues :=
  [⟨⟨[0x62, 0x6f, 0x61, 0x72, 0x64], by decide⟩, 6, 1, 292, ⟨[0x30, 0x30], by decide⟩⟩,
    ⟨⟨[0x73, 0x65, 0x72], by decide⟩, 3, 1, 292, ⟨[0x30], by decide⟩⟩]

/-- A table of two items of unaligned sizes. -/
theorem idme_items_are_a_map_sample : ∃ m₀, idmeInitVarV2p0 sampleTable zeroed = some (0, m₀) ∧
      (idmeGetVarV2p0 ⟨[0x73, 0x65, 0x72], by decide⟩ (some zeroed) 8
        (some (runUpdates m₀ [⟨⟨[0x73, 0x65, 0x72], by decide⟩, fun _ => 0x39, 2⟩]))).1 = 0 := by
  obtain ⟨m₀, hinit, hrun⟩ := idme_items_are_a_map sampleTable zeroed
    (by unfold NamesShort; decide) (by decide)
    ⟨by decide, by decide, trivial⟩
  exact ⟨m₀, hinit, ((hrun _).1 _ _ _).1.mpr (by decide)⟩

end AmlogicV901d.Guarantees.IdmeStore
