import AmlogicV901d.Source.Idme.Items

/-!
# What each IDME operation does to the decoded items

One specification per source function. Callers use these equations and never
unfold the byte-level bodies.
-/
namespace AmlogicV901d.Source.Idme
open Lib.ByteMemory Lib.Strings List

theorem idmeCheckMagicNumber_some (m : Memory) : idmeCheckMagicNumber (some m) = 0 ↔ load m 0 8 = idmeMagicNumber := by
  have h := strncmpEq_length idmeMagicNumber m 0
  change (if strncmpEq idmeMagicNumber.length idmeMagicNumber m 0 = true then (0 : Int) else -2) = 0
    ↔ load m 0 idmeMagicNumber.length = idmeMagicNumber
  rw [← h]
  by_cases hc : strncmpEq idmeMagicNumber.length idmeMagicNumber m 0 = true <;> simp [hc]

theorem memcpy_item_data (b m : Memory) (p : Nat) (n : Nat) :
    memcpy b 0 m (p + 28) (min (descSize m p).toNat n) = store b 0 ((itemAt m p).data.take n) := by
  rw [memcpy_eq_store, Nat.min_comm]
  simp only [itemAt, load_take]

/-- `idme_get_var_v2p0` reads the decoded item list. -/
theorem idmeGetVar_spec (name : CString) (b : Memory) (n : UInt32) (m : Memory)
    (hmagic : load m 0 8 = idmeMagicNumber) (ht : NamesTerminated (idmeItems m)) :
    idmeGetVarV2p0 name (some b) n (some m) =
      match lookupItem name (idmeItems m) with
      | none => (-1, some b)
      | some it => (0, some (store b 0 (it.data.take n.toNat))) := by
  have hlook := idmeFindItem_lookup name m (itemsNum m).toNat 16 ht
  have hc := (idmeCheckMagicNumber_some m).mpr hmagic
  simp only [idmeGetVarV2p0, hc, ne_eq, not_true_eq_false, if_false]
  rw [idmeItems, ← hlook]
  cases idmeFindItem name m (itemsNum m).toNat 16 with
  | none => rfl
  | some p => simp only [Option.map_some, memcpy_item_data]

/-- The data an update leaves in an item of the given size. -/
def updatedData (value : Memory) (length : UInt32) (it : IdmeItem) : List UInt8 :=
  padTo it.size.toNat (load value 0 (min it.size.toNat length.toNat))

theorem load_updated (m value : Memory) (p size n : Nat) :
    load (memcpy (memset m p 0 size) p value 0 (min size n)) p size = padTo size (load value 0 (min size n)) := by
  have hfull : (load value 0 (min size n)).take size = load value 0 (min size n) :=
    take_of_length_le (by rw [load_length]; exact Nat.min_le_left _ _)
  rw [memcpy_eq_store, ← hfull, load_store_padded, hfull]

theorem idmeUpdateVar_returns (name : CString) (value : Option Memory) (n : UInt32) (m : Memory) :
    ∃ ret m', idmeUpdateVarV2p0 name value n (some m) = (ret, some m') := by
  unfold idmeUpdateVarV2p0
  dsimp only
  split
  · exact ⟨_, _, rfl⟩
  · cases value with
    | none => exact ⟨_, _, rfl⟩
    | some v => cases idmeFindItem name m (itemsNum m).toNat 16 <;> exact ⟨_, _, rfl⟩

/-- Outcome of `idme_update_var_v2p0` on a present image and a non-NULL value:
an unknown name changes nothing, a known one rewrites that item's data and no
other byte. -/
theorem idmeUpdateVar_spec (name : CString) (value : Memory) (n : UInt32) (m : Memory)
    (hmagic : load m 0 8 = idmeMagicNumber) (ht : NamesTerminated (idmeItems m)) :
    (lookupItem name (idmeItems m) = none ∧ idmeUpdateVarV2p0 name (some value) n (some m) = (-1, some m)) ∨
    (∃ q m', idmeFindItem name m (itemsNum m).toNat 16 = some q ∧ lookupItem name (idmeItems m) = some (itemAt m q) ∧
      idmeUpdateVarV2p0 name (some value) n (some m) = (0, some m') ∧
      (∀ a, a < q + 28 ∨ q + 28 + (descSize m q).toNat ≤ a → m' a = m a) ∧
      idmeItems m' = assignItem name (updatedData value n) (idmeItems m)) := by
  have hlook := idmeFindItem_lookup name m (itemsNum m).toNat 16 ht
  have hc := (idmeCheckMagicNumber_some m).mpr hmagic
  simp only [idmeUpdateVarV2p0, hc, ne_eq, not_true_eq_false, if_false]
  cases hf : idmeFindItem name m (itemsNum m).toNat 16 with
  | none =>
    left
    rw [hf] at hlook
    exact ⟨hlook.symm, rfl⟩
  | some q =>
    right
    rw [hf] at hlook
    refine ⟨q, _, rfl, hlook.symm, rfl, ?_, ?_⟩
    · intro a ha
      rw [memcpy_outside (by omega), memset_outside (by omega)]
    · have hframe : ∀ a, a < q + 28 ∨ q + 28 + (descSize m q).toNat ≤ a →
          memcpy (memset m (q + 28) 0 (descSize m q).toNat) (q + 28) value 0
            (min (descSize m q).toNat n.toNat) a = m a := by
        intro a ha
        rw [memcpy_outside (by omega), memset_outside (by omega)]
      exact itemsFrom_assign ht hf hframe (updatedData value n)
        (load_updated m value (q + 28) (descSize m q).toNat n.toNat)

/-- The item that `IDME_ITEM_INIT` leaves for a descriptor and a value string. -/
def initItem (name : CString) (size exportable permission : UInt32) (value : CString) : IdmeItem :=
  ⟨name.bytes, size, exportable, permission, padTo size.toNat value.bytes⟩

theorem idmeItemInit_spec (m : Memory) (p limit : Nat) (item : CString) (maxSize exportable permission : UInt32)
    (value : CString) (hfit : p + 28 + maxSize.toNat ≤ limit) (hname : strlen item < 16) :
    ∃ m', idmeItemInit m p limit item maxSize exportable permission value = some m' ∧
      itemAt m' p = initItem item maxSize exportable permission value ∧
      ∀ a, a < p ∨ p + 28 + maxSize.toNat ≤ a → m' a = m a := by
  have hlen : item.bytes.length < 16 := hname
  have htake : item.bytes.take (min 16 (strlen item)) = item.bytes :=
    take_of_length_le (by simp only [strlen]; omega)
  have hvtake : value.bytes.take (min maxSize.toNat (strlen value)) =
      value.bytes.take maxSize.toNat := by
    rw [← take_take, strlen, take_length]
  unfold idmeItemInit
  rw [if_neg (by omega), htake, hvtake]
  dsimp only
  -- the data write, the name write and the three descriptor words, in this order
  generalize hd : store (memset m (p + 28) 0 maxSize.toNat) (p + 28) (value.bytes.take maxSize.toNat) = md
  generalize hn : store (memset md p 0 16) p item.bytes = mn
  generalize hw : storeU32 (storeU32 (storeU32 mn (p + 16) maxSize) (p + 20) exportable) (p + 24) permission = mw
  have hwords : ∀ a, a < p + 16 ∨ p + 28 ≤ a → mw a = mn a := by
    intro a ha
    rw [← hw, storeU32_outside (by omega), storeU32_outside (by omega), storeU32_outside (by omega)]
  have hsize : descSize mw p = maxSize := by
    rw [← hw, descSize, loadU32_congr fun i hi => storeU32_outside (by omega),
      loadU32_congr fun i hi => storeU32_outside (by omega), loadU32_storeU32]
  have hexp : loadU32 mw (p + 20) = exportable := by
    rw [← hw, loadU32_congr fun i hi => storeU32_outside (by omega), loadU32_storeU32]
  have hperm : loadU32 mw (p + 24) = permission := by rw [← hw, loadU32_storeU32]
  have hfield : fieldString mw p 16 = item.bytes := by
    rw [fieldString_congr fun i hi => hwords _ (by omega), ← hn]
    exact fieldString_store md p 16 item.bytes item.noNul (by omega)
  have hnamed : ∀ a, a < p ∨ p + 16 ≤ a → mn a = md a := by
    intro a ha
    rw [← hn, store_outside (by omega), memset_outside (by omega)]
  have hdata : load mw (p + 28) maxSize.toNat = padTo maxSize.toNat value.bytes := by
    rw [load_congr fun i hi => hwords _ (by omega), load_congr fun i hi => hnamed _ (by omega), ← hd]
    exact load_store_padded m (p + 28) maxSize.toNat value.bytes
  refine ⟨mw, rfl, ?_, ?_⟩
  · simp only [itemAt, hsize, hexp, hperm, hfield, hdata, initItem]
  · intro a ha
    rw [hwords a (by omega), hnamed a (by omega), ← hd, store_outside (by simp; omega), memset_outside (by omega)]

theorem idmeItemInit_size (m : Memory) (p limit : Nat) (item : CString) (maxSize exportable permission : UInt32)
    (value : CString) (hfit : p + 28 + maxSize.toNat ≤ limit) :
    ∃ m', idmeItemInit m p limit item maxSize exportable permission value = some m' ∧ descSize m' p = maxSize := by
  unfold idmeItemInit
  rw [if_neg (by omega)]
  refine ⟨_, rfl, ?_⟩
  rw [descSize, loadU32_congr fun i hi => storeU32_outside (by omega),
    loadU32_congr fun i hi => storeU32_outside (by omega), loadU32_storeU32]

/-- Every entry of the table fits below the limit at its aligned position. -/
def TableFits (limit : Nat) : Nat → List IdmeInitValues → Prop
  | _, [] => True
  | p, e :: rest => p + 28 + e.size.toNat ≤ limit ∧ TableFits limit (p + stride e.size) rest

def NamesShort (table : List IdmeInitValues) : Prop :=
  ∀ e ∈ table, 0 < strlen e.name ∧ strlen e.name < 16

def defaultItem (e : IdmeInitValues) : IdmeItem :=
  initItem e.name e.size e.exportable e.permission e.value

variable (table : List IdmeInitValues)

theorem namedPrefix_of_short (h : NamesShort table) : namedPrefix table = table := by
  induction table with
  | nil => rfl
  | cons e rest ih =>
    have he := (h e (by simp)).1
    have hrest := ih fun x hx => h x (by simp [hx])
    simp only [namedPrefix, hrest, if_neg (by omega : ¬ strlen e.name = 0)]

theorem TableFits.length_bound {limit : Nat} {p : Nat} {table : List IdmeInitValues}
    (h : TableFits limit p table) : table = [] ∨ p + 28 * table.length ≤ limit := by
  induction table generalizing p with
  | nil => exact .inl rfl
  | cons e rest ih =>
    have hs := stride_ge e.size
    rcases ih h.2 with rfl | hb
    · exact .inr (by have := h.1; simp; omega)
    · exact .inr (by simp; omega)

theorem TableFits.length_lt {table : List IdmeInitValues} (h : TableFits configIdmeSize 16 table) :
    table.length < 2 ^ 32 := by
  rcases h.length_bound with rfl | hb
  · simp
  · simp only [configIdmeSize, configMmcBlockSize, idmeNumOfEmmcBlocks] at hb
    omega

/-- The default-table loop lays the table out in order and writes nothing below
its start. -/
theorem idmeInitItems_spec (m : Memory) (p num : Nat) (hnames : NamesShort table)
    (hfits : TableFits configIdmeSize p table) : ∃ m', idmeInitItems table m p num = some (m', num + table.length) ∧
      itemsFrom m' table.length p = table.map defaultItem ∧ ∀ a, a < p → m' a = m a := by
  induction table generalizing m p num with
  | nil => exact ⟨m, rfl, rfl, fun _ _ => rfl⟩
  | cons e rest ih =>
    have he := hnames e (by simp)
    have hrest : NamesShort rest := fun x hx => hnames x (by simp [hx])
    obtain ⟨m₁, hinit, hitem, hframe⟩ := idmeItemInit_spec m p configIdmeSize e.name e.size
      e.exportable e.permission e.value hfits.1 he.2
    have hsize : descSize m₁ p = e.size := congrArg IdmeItem.size hitem
    have hstride := stride_ge e.size
    simp only [idmeInitItems, if_neg (by omega : ¬ strlen e.name = 0), hinit]
    rw [namedPrefix_of_short rest hrest]
    cases rest with
    | nil =>
      refine ⟨m₁, rfl, ?_, fun a ha => hframe a (by omega)⟩
      simp [itemsFrom, hitem, defaultItem]
    | cons e' rest' =>
      rw [if_neg (cons_ne_nil _ _), idmeItemNext_eq, hsize]
      obtain ⟨m₂, hrun, hitems, hbelow⟩ := ih m₁ (p + stride e.size) (num + 1) hrest hfits.2
      refine ⟨m₂, ?_, ?_, ?_⟩
      · rw [hrun]
        simp [Nat.add_assoc, Nat.add_comm]
      · have hkeep : itemAt m₂ p = itemAt m₁ p :=
          itemAt_congr fun i hi => hbelow _ (by rw [hsize] at hi; omega)
        have hnext : idmeItemNext m₂ p = p + stride e.size := by
          rw [idmeItemNext_eq, show descSize m₂ p = e.size from
            (congrArg IdmeItem.size hkeep).trans hsize]
        rw [length_cons, itemsFrom, hnext, hitems, hkeep, hitem]
        rfl
      · intro a ha
        rw [hbelow a (by omega), hframe a (by omega)]

/-- `idme_init_var_v2p0` on a fitting table returns 0 and a version 2.1 image
that decodes to the table. -/
theorem idmeInitVar_spec (data : Memory) (hnames : NamesShort table) (hfits : TableFits configIdmeSize 16 table) :
    ∃ m, idmeInitVarV2p0 table data = some (0, m) ∧ load m 0 8 = idmeMagicNumber ∧
      load m 8 3 = idmeVersion2p1 ∧ idmeItems m = table.map defaultItem := by
  obtain ⟨m₁, hrun, hitems, hbelow⟩ := idmeInitItems_spec table
    (store (store (memset data 0 0 configIdmeSize) 0 idmeMagicNumber) 8 idmeVersion2p1) 16 0
    hnames hfits
  have hcount : (UInt32.ofNat table.length).toNat = table.length := by
    exact Nat.mod_eq_of_lt hfits.length_lt
  have hlow : ∀ a, a < 12 → storeU32 m₁ 12 (UInt32.ofNat table.length) a =
      store (store (memset data 0 0 configIdmeSize) 0 idmeMagicNumber) 8 idmeVersion2p1 a := by
    intro a ha
    rw [storeU32_outside (by omega), hbelow a (by omega)]
  refine ⟨storeU32 m₁ 12 (UInt32.ofNat table.length), ?_, ?_, ?_, ?_⟩
  · simp only [idmeInitVarV2p0, hrun, Nat.zero_add]
  · rw [load_congr fun i hi => hlow _ (by omega), load_congr fun i hi => store_outside (by omega)]
    exact load_store _ 0 idmeMagicNumber
  · rw [load_congr fun i hi => hlow _ (by omega)]
    exact load_store _ 8 idmeVersion2p1
  · rw [idmeItems, itemsNum, loadU32_storeU32, hcount, ← hitems]
    exact itemsFrom_congr _ _ fun a ha => storeU32_outside (by omega)

end AmlogicV901d.Source.Idme
