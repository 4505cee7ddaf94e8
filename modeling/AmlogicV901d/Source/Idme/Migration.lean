import AmlogicV901d.Source.Idme.Operations

/-!
# IDME table migration

Source: features/idme/cmd_idme_v2_0.c:106-228
(`idme_update_table_v2p0`, compiled in by IDME_UPDATE_TABLE).

The stored image is read only until the final `memcpy`; the new image grows in a
buffer from `malloc`. The lemmas say what one table entry and then the whole
table leave in the new buffer, as items.
-/
namespace AmlogicV901d.Source.Idme
open Lib.ByteMemory Lib.Strings List
open IdmeItem (size)

/-- `pdflts->desc.size - pitem_itr->desc.size`: an unsigned difference kept in an
`int`. -/
def sizeDiffer (newSize oldSize : UInt32) : Int := (newSize - oldSize).toBitVec.toInt

/-- The inner search loop. It compares with `strncmp` over IDME_MAX_NAME_LEN. -/
def idmeFindStored (name : CString) (m : Memory) : Nat → Nat → Option Nat
  | 0, _ => none
  | count + 1, p =>
    if strncmpEq 16 name.bytes m p then some p
    else idmeFindStored name m count (idmeItemNext m p)

/-- The stored name as `IDME_ITEM_INIT` reads it: at most 16 bytes, up to a NUL. -/
def storedName (m : Memory) (p : Nat) : CString := ⟨fieldString m p 16, fieldString_noNul m p 16⟩

/-- Locals of the migration loop: `pnew_idme`, `pnew_item`, `new_items_num`,
`size_differ_flag` and `cnt_items_added`. -/
structure TableUpdate where
  image : Memory
  item : Nat
  newItemsNum : UInt32
  sizeDifferFlag : Bool
  cntItemsAdded : UInt32

/-- One iteration over `pdflts`. -/
def idmeUpdateTableItem (old : Memory) (e : IdmeInitValues) (s : TableUpdate) :
    Option TableUpdate :=
  match idmeFindStored e.name old (itemsNum old).toNat 16 with
  | some q =>
    match idmeItemInit s.image s.item configIdmeSize (storedName old q) e.size
        (loadU32 old (q + 20)) (loadU32 old (q + 24)) e.value with
    | none => none
    | some image =>
      let differ := sizeDiffer e.size (descSize old q)
      -- the default value is already in place when the stored bytes are laid over it
      let image :=
        if 0 ≤ differ then memcpy image (s.item + 28) old (q + 28) (descSize old q).toNat
        else image
      some { s with
        image := image
        item := idmeItemNext image s.item
        newItemsNum := s.newItemsNum + 1
        sizeDifferFlag := s.sizeDifferFlag || decide (differ ≠ 0) }
  | none =>
    match idmeItemInit s.image s.item configIdmeSize e.name e.size e.exportable e.permission
        e.value with
    | none => none
    | some image =>
      some { s with
        image := image
        item := idmeItemNext image s.item
        newItemsNum := s.newItemsNum + 1
        cntItemsAdded := s.cntItemsAdded + 1 }

def idmeUpdateTableItems (old : Memory) : List IdmeInitValues → TableUpdate → Option TableUpdate
  | [], s => some s
  | e :: rest, s =>
    if strlen e.name = 0 then some s
    else
      match idmeUpdateTableItem old e s with
      | none => none
      | some s => idmeUpdateTableItems old rest s

/-- `fresh` is the buffer that `malloc(CONFIG_IDME_SIZE)` returns, `none` for
NULL. An outer `none` is the busy loop of `IDME_ITEM_INIT`. -/
def idmeUpdateTableV2p0 (idmeDefaultValues : List IdmeInitValues) (fresh : Option Memory)
    (data : Option Memory) : Option (Int × Option Memory) :=
  match data with
  | none => some (-1, none)
  | some m =>
    if idmeCheckMagicNumber (some m) ≠ 0 then some (-1, some m)
    else if ¬ strncmpEq idmeVersion2p1.length idmeVersion2p1 m 8 then some (-1, some m)
    else
      match fresh with
      | none => some (-1, some m)
      | some b =>
        let b := memset b 0 0 configIdmeSize
        let b := memcpy b 0 m 0 8
        let b := memcpy b 8 m 8 4
        match idmeUpdateTableItems m idmeDefaultValues ⟨b, 16, 0, false, 0⟩ with
        | none => none
        | some s =>
          let cntItemsDeleted := itemsNum m + s.cntItemsAdded - s.newItemsNum
          if s.cntItemsAdded ≠ 0 ∨ cntItemsDeleted ≠ 0 ∨ s.sizeDifferFlag then
            let image := storeU32 s.image 12 s.newItemsNum
            some (0, some (memcpy m 0 image 0 configIdmeSize))
          else some (-2, some m)

/-- Items laid out from `p` at their aligned positions end below the limit. -/
def ItemsWithin (limit : Nat) : Nat → List IdmeItem → Prop
  | _, [] => True
  | p, it :: rest => p + 28 + it.size.toNat ≤ limit ∧ ItemsWithin limit (p + stride it.size) rest

/-- The item the migration writes for a table entry. A stored item that does not
shrink is laid over the padded default value. -/
def overlaidItem (stored : List IdmeItem) (e : IdmeInitValues) : IdmeItem :=
  match lookupItem e.name stored with
  | none => defaultItem e
  | some it =>
    { name := e.name.bytes
      size := e.size
      exportable := it.exportable
      permission := it.permission
      data :=
        if it.size ≤ e.size then it.data ++ (padTo e.size.toNat e.value.bytes).drop it.size.toNat
        else padTo e.size.toNat e.value.bytes }

@[simp] theorem overlaidItem_size (stored : List IdmeItem) (e : IdmeInitValues) :
    (overlaidItem stored e).size = e.size := by
  unfold overlaidItem
  split <;> rfl

theorem ItemsWithin.size_le {limit p : Nat} {items : List IdmeItem} (h : ItemsWithin limit p items) :
    ∀ it ∈ items, it.size.toNat ≤ limit := by
  induction items generalizing p with
  | nil => simp
  | cons head rest ih =>
    intro it hit
    rcases mem_cons.mp hit with rfl | hmem
    · have := h.1
      omega
    · exact ih h.2 it hmem

theorem TableFits.itemsWithin {limit p : Nat} {table : List IdmeInitValues} (h : TableFits limit p table)
    (f : IdmeInitValues → IdmeItem) (hf : ∀ e, (f e).size = e.size) : ItemsWithin limit p (table.map f) := by
  induction table generalizing p with
  | nil => trivial
  | cons e rest ih =>
    refine ⟨by rw [hf]; exact h.1, ?_⟩
    rw [hf]
    exact ih h.2

theorem itemsFrom_congr_within {m m' : Memory} {limit : Nat} (count p : Nat)
    (hin : ItemsWithin limit p (itemsFrom m count p))
    (h : ∀ a, p ≤ a → a < limit → m' a = m a) : itemsFrom m' count p = itemsFrom m count p := by
  induction count generalizing p with
  | zero => rfl
  | succ count ih =>
    have hfit : p + 28 + (descSize m p).toNat ≤ limit := hin.1
    have hitem : itemAt m' p = itemAt m p :=
      itemAt_congr fun i hi => h (p + i) (by omega) (by omega)
    have hnext : idmeItemNext m' p = idmeItemNext m p := idmeItemNext_congr (congrArg size hitem)
    simp only [itemsFrom, hitem, hnext]
    rw [ih (idmeItemNext m p) hin.2 fun a ha hl => h a (by rw [idmeItemNext_eq] at ha; omega) hl]

theorem idmeFindStored_eq (name : CString) (hname : strlen name < 16) (m : Memory) (count p : Nat) :
    idmeFindStored name m count p = idmeFindItem name m count p := by
  induction count generalizing p with
  | zero => rfl
  | succ count ih =>
    simp only [idmeFindStored, idmeFindItem, ih, strncmpEq_of_lt 16 name.bytes m p hname]

theorem sizeDiffer_nonneg_iff (newSize oldSize : UInt32) (hnew : newSize.toNat < 2 ^ 31)
    (hold : oldSize.toNat < 2 ^ 31) : 0 ≤ sizeDiffer newSize oldSize ↔ oldSize ≤ newSize := by
  have hsub := UInt32.toNat_sub newSize oldSize
  rw [UInt32.le_iff_toNat_le, sizeDiffer, BitVec.toInt_eq_toNat_cond]
  change 0 ≤ (if 2 * (newSize - oldSize).toNat < 2 ^ 32 then ((newSize - oldSize).toNat : Int)
    else ((newSize - oldSize).toNat : Int) - (2 ^ 32 : Nat)) ↔ _
  split <;> omega

theorem itemAt_overlay (m src : Memory) (p q n : Nat) (h : n ≤ (descSize m p).toNat) :
    itemAt (memcpy m (p + 28) src q n) p = { itemAt m p with data := load src q n ++ (itemAt m p).data.drop n } := by
  have hframe : ∀ a, a < p + 28 ∨ p + 28 + n ≤ a → memcpy m (p + 28) src q n a = m a :=
    fun a ha => memcpy_outside ha
  have hhead : load (memcpy m (p + 28) src q n) (p + 28) n = load src q n := by
    have hstore := load_store m (p + 28) (load src q n)
    rwa [load_length, ← memcpy_eq_store] at hstore
  obtain ⟨rest, hrest⟩ := Nat.exists_eq_add_of_le h
  have hdata : load (memcpy m (p + 28) src q n) (p + 28) (descSize m p).toNat =
      load src q n ++ (load m (p + 28) (descSize m p).toNat).drop n := by
    rw [hrest, load_add, hhead, load_add m, drop_left' (load_length _ _ _),
      load_congr fun i hi => hframe _ (by omega)]
  rw [itemAt_data fun i hi => hframe _ (by omega), hdata]
  rfl

variable (old : Memory)

/-- Whatever the stored bytes are, one table entry advances `pnew_item` by the
entry's own stride. -/
theorem idmeUpdateTableItem_item (e : IdmeInitValues) (s : TableUpdate)
    (hfit : s.item + 28 + e.size.toNat ≤ configIdmeSize) :
    ∃ s', idmeUpdateTableItem old e s = some s' ∧ s'.item = s.item + stride e.size := by
  unfold idmeUpdateTableItem
  cases idmeFindStored e.name old (itemsNum old).toNat 16 with
  | none =>
    obtain ⟨image, hinit, hsize⟩ := idmeItemInit_size s.image s.item configIdmeSize e.name e.size
      e.exportable e.permission e.value hfit
    simp only [hinit]
    exact ⟨_, rfl, by rw [idmeItemNext_eq, hsize]⟩
  | some q =>
    obtain ⟨image, hinit, hsize⟩ := idmeItemInit_size s.image s.item configIdmeSize
      (storedName old q) e.size (loadU32 old (q + 20)) (loadU32 old (q + 24)) e.value hfit
    -- a memcpy into the data leaves the descriptor alone, however long it is
    have hkeep : ∀ n, descSize (memcpy image (s.item + 28) old (q + 28) n) s.item = e.size :=
      fun n => (loadU32_congr fun i hi => memcpy_outside (by omega)).trans hsize
    simp only [hinit]
    refine ⟨_, rfl, ?_⟩
    split
    · rw [idmeItemNext_eq, hkeep]
    · rw [idmeItemNext_eq, hsize]

theorem idmeUpdateTableItems_returns (table : List IdmeInitValues) (s : TableUpdate)
    (hfits : TableFits configIdmeSize s.item table) : ∃ s', idmeUpdateTableItems old table s = some s' := by
  induction table generalizing s with
  | nil => exact ⟨s, rfl⟩
  | cons e rest ih =>
    simp only [idmeUpdateTableItems]
    split
    · exact ⟨s, rfl⟩
    · obtain ⟨s₁, hstep, hitem⟩ := idmeUpdateTableItem_item old e s hfits.1
      simp only [hstep]
      exact ih s₁ (by rw [hitem]; exact hfits.2)

theorem idmeUpdateTable_returns (table : List IdmeInitValues) (fresh : Option Memory) (m : Memory)
    (hfits : TableFits configIdmeSize 16 table) :
    ∃ ret m', idmeUpdateTableV2p0 table fresh (some m) = some (ret, some m') ∧ (ret ≠ 0 → m' = m) := by
  simp only [idmeUpdateTableV2p0]
  split
  · exact ⟨_, _, rfl, fun _ => rfl⟩
  split
  · exact ⟨_, _, rfl, fun _ => rfl⟩
  cases fresh with
  | none => exact ⟨_, _, rfl, fun _ => rfl⟩
  | some b =>
    obtain ⟨s, hrun⟩ := idmeUpdateTableItems_returns m table
      ⟨memcpy (memcpy (memset b 0 0 configIdmeSize) 0 m 0 8) 8 m 8 4, 16, 0, false, 0⟩ hfits
    simp only [hrun]
    split
    · exact ⟨_, _, rfl, fun h => absurd rfl h⟩
    · exact ⟨_, _, rfl, fun _ => rfl⟩

/-- A stored image the migration accepts. -/
structure StoredImage (m : Memory) : Prop where
  magic : load m 0 8 = idmeMagicNumber
  version : load m 8 3 = idmeVersion2p1
  names : NamesTerminated (idmeItems m)
  within : ItemsWithin configIdmeSize 16 (idmeItems m)

/-- One table entry adds one item at `pnew_item` and touches no earlier byte. -/
theorem idmeUpdateTableItem_spec (hold : StoredImage old) (e : IdmeInitValues) (s : TableUpdate)
    (hname : strlen e.name < 16) (hfit : s.item + 28 + e.size.toNat ≤ configIdmeSize) :
    ∃ s', idmeUpdateTableItem old e s = some s' ∧ s'.item = s.item + stride e.size ∧
      s'.newItemsNum = s.newItemsNum + 1 ∧ itemAt s'.image s.item = overlaidItem (idmeItems old) e ∧
      ∀ a, a < s.item → s'.image a = s.image a := by
  have hlook := idmeFindItem_lookup e.name old (itemsNum old).toNat 16 hold.names
  rw [← idmeFindStored_eq e.name hname] at hlook
  unfold idmeUpdateTableItem
  cases hf : idmeFindStored e.name old (itemsNum old).toNat 16 with
  | none =>
    rw [hf] at hlook
    have hitem : overlaidItem (idmeItems old) e = defaultItem e := by
      rw [overlaidItem, show lookupItem e.name (idmeItems old) = none from hlook.symm]
    obtain ⟨image, hinit, hat, hframe⟩ := idmeItemInit_spec s.image s.item configIdmeSize e.name
      e.size e.exportable e.permission e.value hfit hname
    have hsize : descSize image s.item = e.size := congrArg size hat
    simp only [hinit]
    refine ⟨_, rfl, ?_, rfl, ?_, fun a ha => hframe a (by omega)⟩
    · rw [idmeItemNext_eq, hsize]
    · rw [hitem]
      exact hat
  | some q =>
    rw [hf] at hlook
    have hfound : lookupItem e.name (idmeItems old) = some (itemAt old q) := hlook.symm
    have hmem : itemAt old q ∈ idmeItems old := mem_of_find?_eq_some hfound
    have hstored : fieldString old q 16 = e.name.bytes := lookupItem_name hfound
    have hlimit : configIdmeSize < 2 ^ 31 := by decide
    have hle := hold.within.size_le _ hmem
    have hsign : 0 ≤ sizeDiffer e.size (descSize old q) ↔ descSize old q ≤ e.size :=
      sizeDiffer_nonneg_iff _ _ (by omega) (Nat.lt_of_le_of_lt hle hlimit)
    have hshort : strlen (storedName old q) < 16 := hold.names _ hmem
    obtain ⟨image, hinit, hat, hframe⟩ := idmeItemInit_spec s.image s.item configIdmeSize
      (storedName old q) e.size (loadU32 old (q + 20)) (loadU32 old (q + 24)) e.value hfit hshort
    have hsize : descSize image s.item = e.size := congrArg size hat
    simp only [hinit]
    by_cases hgrow : descSize old q ≤ e.size
    · -- kept or grown: the stored bytes over the padded default
      have hover := itemAt_overlay image old s.item (q + 28) (descSize old q).toNat
        (by rw [hsize]; exact UInt32.le_iff_toNat_le.mp hgrow)
      simp only [if_pos (hsign.mpr hgrow)]
      refine ⟨_, rfl, ?_, rfl, ?_, ?_⟩
      · rw [idmeItemNext_eq, show descSize (memcpy image (s.item + 28) old (q + 28)
          (descSize old q).toNat) s.item = e.size from (congrArg size hover).trans hsize]
      · rw [hover, hat, overlaidItem, hfound]
        simp only [initItem, storedName, hstored, itemAt, if_pos hgrow]
      · intro a ha
        exact (memcpy_outside (by omega)).trans (hframe a (by omega))
    · -- shrunk: the default stays
      simp only [if_neg fun h => hgrow (hsign.mp h)]
      refine ⟨_, rfl, ?_, rfl, ?_, fun a ha => hframe a (by omega)⟩
      · rw [idmeItemNext_eq, hsize]
      · rw [hat, overlaidItem, hfound]
        simp only [initItem, storedName, hstored, itemAt, if_neg hgrow]

theorem idmeUpdateTableItems_spec (hold : StoredImage old) (table : List IdmeInitValues) (s : TableUpdate)
    (hnames : NamesShort table) (hfits : TableFits configIdmeSize s.item table) :
    ∃ s', idmeUpdateTableItems old table s = some s' ∧ s'.newItemsNum = s.newItemsNum + UInt32.ofNat table.length ∧
      itemsFrom s'.image table.length s.item = table.map (overlaidItem (idmeItems old)) ∧
      ∀ a, a < s.item → s'.image a = s.image a := by
  induction table generalizing s with
  | nil => exact ⟨s, rfl, by simp, rfl, fun _ _ => rfl⟩
  | cons e rest ih =>
    have he := hnames e (by simp)
    obtain ⟨s₁, hstep, hnext, hnum, hitem, hframe⟩ :=
      idmeUpdateTableItem_spec old hold e s he.2 hfits.1
    obtain ⟨s₂, hrun, hcount, hitems, hbelow⟩ := ih s₁ (fun x hx => hnames x (by simp [hx]))
      (by rw [hnext]; exact hfits.2)
    have hsize : descSize s₁.image s.item = e.size :=
      (congrArg size hitem).trans (overlaidItem_size _ _)
    have hstride := stride_ge e.size
    refine ⟨s₂, ?_, ?_, ?_, ?_⟩
    · simp only [idmeUpdateTableItems, if_neg (by omega : ¬ strlen e.name = 0), hstep, hrun]
    · rw [hcount, hnum, length_cons, UInt32.ofNat_add, UInt32.add_assoc,
        UInt32.add_comm (UInt32.ofNat rest.length)]
      rfl
    · have hkeep : itemAt s₂.image s.item = itemAt s₁.image s.item :=
        itemAt_congr fun i hi => hbelow _ (by rw [hsize] at hi; omega)
      have hsecond : idmeItemNext s₂.image s.item = s₁.item := by
        rw [idmeItemNext_eq, hnext, show descSize s₂.image s.item = e.size from
          (congrArg size hkeep).trans hsize]
      rw [length_cons, itemsFrom, hsecond, hitems, hkeep, hitem]
      rfl
    · intro a ha
      rw [hbelow a (by omega), hframe a ha]

theorem idmeItems_copyBack (m image : Memory) (num : UInt32) (items : List IdmeItem)
    (hitems : itemsFrom image num.toNat 16 = items) (hwithin : ItemsWithin configIdmeSize 16 items) :
    idmeItems (memcpy m 0 (storeU32 image 12 num) 0 configIdmeSize) = items := by
  have hroom : 16 ≤ configIdmeSize := by decide
  have hnum : itemsNum (memcpy m 0 (storeU32 image 12 num) 0 configIdmeSize) = num := by
    rw [itemsNum, loadU32_congr fun i hi => memcpy_start (by omega), loadU32_storeU32]
  rw [← hitems] at hwithin
  rw [idmeItems, hnum, ← hitems]
  apply itemsFrom_congr_within _ 16 hwithin
  intro a hl hu
  rw [memcpy_start hu, storeU32_outside (by omega)]

/-- Outcome of `idme_update_table_v2p0` on a stored image: nothing changes, or
the image is replaced by one that decodes to the overlaid table. -/
theorem idmeUpdateTable_spec (table : List IdmeInitValues) (fresh : Option Memory) (m : Memory) (hm : StoredImage m)
    (hnames : NamesShort table) (hfits : TableFits configIdmeSize 16 table) :
    ∃ ret m', idmeUpdateTableV2p0 table fresh (some m) = some (ret, some m') ∧ (ret ≠ 0 → m' = m) ∧
      (ret = 0 → load m' 0 12 = load m 0 12 ∧ idmeItems m' = table.map (overlaidItem (idmeItems m))) := by
  have hmagic := (idmeCheckMagicNumber_some m).mpr hm.magic
  have hversion : strncmpEq idmeVersion2p1.length idmeVersion2p1 m 8 = true :=
    (strncmpEq_length idmeVersion2p1 m 8).mpr hm.version
  simp only [idmeUpdateTableV2p0, hmagic, hversion, ne_eq, not_true_eq_false, if_false]
  cases fresh with
  | none => exact ⟨-1, m, rfl, fun _ => rfl, nofun⟩
  | some b =>
    dsimp only
    generalize hstart : memcpy (memcpy (memset b 0 0 configIdmeSize) 0 m 0 8) 8 m 8 4 = start
    have hhead : ∀ a, a < 12 → start a = m a := by
      intro a ha
      rw [← hstart]
      by_cases h8 : a < 8
      · rw [memcpy_outside (by omega), memcpy_start h8]
      · rw [memcpy_inside (by omega) (by omega), Nat.add_sub_cancel' (by omega)]
    obtain ⟨s, hrun, hnum, hitems, hbelow⟩ :=
      idmeUpdateTableItems_spec m hm table ⟨start, 16, 0, false, 0⟩ hnames hfits
    have hcount : s.newItemsNum.toNat = table.length := by
      rw [hnum, UInt32.zero_add, UInt32.toNat_ofNat']
      exact Nat.mod_eq_of_lt hfits.length_lt
    simp only [hrun]
    split
    · refine ⟨0, _, rfl, fun h => absurd rfl h, fun _ => ⟨?_, ?_⟩⟩
      · have hroom : 12 ≤ configIdmeSize := by decide
        apply load_congr
        intro i hi
        rw [memcpy_start (by omega), storeU32_outside (by omega)]
        exact (hbelow _ (by change _ < 16; omega)).trans (hhead _ (by omega))
      · apply idmeItems_copyBack m s.image s.newItemsNum
        · rw [hcount]
          exact hitems
        · exact hfits.itemsWithin _ (overlaidItem_size _)
    · exact ⟨-2, m, rfl, fun _ => rfl, nofun⟩

end AmlogicV901d.Source.Idme
