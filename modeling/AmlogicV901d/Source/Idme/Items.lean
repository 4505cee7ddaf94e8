import AmlogicV901d.Source.Idme.Image

/-!
# IDME item walk as a list of items

`idmeItems` decodes an image by the same stride computation the source walks
with. Consecutive walk positions are at least a whole item apart whatever the
memory holds, so a write inside one item's data moves no other item: this is the
only disjointness argument of the development. Lookup and assignment on the
decoded list are the abstract operations that the source functions refine.
-/
namespace AmlogicV901d.Source.Idme
open Lib.ByteMemory Lib.Strings List

structure IdmeItem where
  name : List UInt8
  size : UInt32
  exportable : UInt32
  permission : UInt32
  data : List UInt8
  deriving DecidableEq, Repr

def itemAt (m : Memory) (p : Nat) : IdmeItem where
  name := fieldString m p 16
  size := descSize m p
  exportable := loadU32 m (p + 20)
  permission := loadU32 m (p + 24)
  data := load m (p + 28) (descSize m p).toNat

def itemsFrom (m : Memory) : Nat → Nat → List IdmeItem
  | 0, _ => []
  | count + 1, p => itemAt m p :: itemsFrom m count (idmeItemNext m p)

def idmeItems (m : Memory) : List IdmeItem := itemsFrom m (itemsNum m).toNat 16

def stride (size : UInt32) : Nat := (28 + size.toNat + 4 - 1) / 4 * 4

theorem idmeItemNext_eq (m : Memory) (p : Nat) : idmeItemNext m p = p + stride (descSize m p) := rfl

theorem stride_ge (size : UInt32) : 28 + size.toNat ≤ stride size := by
  unfold stride
  omega

/-- A value cut to the item and filled up with zero bytes. -/
def padTo (n : Nat) (bytes : List UInt8) : List UInt8 :=
  bytes.take n ++ List.replicate (n - bytes.length) 0

@[simp] theorem padTo_length (n : Nat) (bytes : List UInt8) : (padTo n bytes).length = n := by
  simp [padTo]
  omega

theorem padTo_getD (n : Nat) (bytes : List UInt8) (i : Nat) :
    (padTo n bytes).getD i 0 = if i < n then bytes.getD i 0 else 0 := by
  by_cases hn : i < n
  · by_cases hb : i < bytes.length
    · have ht : i < (bytes.take n).length := by simp; omega
      simp [padTo, getD_eq_getElem?_getD, getElem?_append_left ht, hn]
    have ht : (bytes.take n).length ≤ i := by simp; omega
    simp only [padTo, getD_eq_getElem?_getD, getElem?_append_right ht,
      getElem?_replicate, getElem?_eq_none (Nat.le_of_not_lt hb)]
    split <;> rfl
  · have hl : (padTo n bytes).length ≤ i := by simpa using hn
    rw [if_neg hn, getD_eq_getElem?_getD, getElem?_eq_none hl]
    rfl

theorem load_store_padded (m : Memory) (p n : Nat) (bytes : List UInt8) :
    load (store (memset m p 0 n) p (bytes.take n)) p n = padTo n bytes := by
  apply ext_getElem (by simp)
  intro i hi hp
  have hin : i < n := by simpa using hi
  have hpad := padTo_getD n bytes i
  rw [getD_eq_getElem?_getD, getElem?_eq_getElem hp, if_pos hin] at hpad
  rw [load_getElem, show (padTo n bytes)[i] = bytes.getD i 0 from hpad]
  by_cases hb : i < bytes.length
  · rw [store_inside (by omega) (by simp; omega), Nat.add_sub_cancel_left]
    simp [getD_eq_getElem?_getD, hin]
  · rw [store_outside (by simp; omega), memset_inside (by omega) (by omega)]
    simp [hb]

def lookupItem (name : CString) (items : List IdmeItem) : Option IdmeItem :=
  items.find? (fun it => it.name = name.bytes)

theorem lookupItem_name {name : CString} {items : List IdmeItem} {it : IdmeItem}
    (h : lookupItem name items = some it) : it.name = name.bytes := by
  simpa using find?_some h

/-- Replace the data of the first item of that name. -/
def assignItem (name : CString) (newData : IdmeItem → List UInt8) : List IdmeItem → List IdmeItem
  | [] => []
  | it :: rest =>
    if it.name = name.bytes then { it with data := newData it } :: rest
    else it :: assignItem name newData rest

/-- Every walked name ends inside its 16-byte field. -/
def NamesTerminated (items : List IdmeItem) : Prop := ∀ it ∈ items, it.name.length < 16

/-- The descriptor is the first 28 bytes of an item. -/
theorem itemAt_data {m m' : Memory} {p : Nat} (h : ∀ i, i < 28 → m' (p + i) = m (p + i)) :
    itemAt m' p = { itemAt m p with data := load m' (p + 28) (descSize m p).toNat } := by
  have word : ∀ k, k + 4 ≤ 28 → loadU32 m' (p + k) = loadU32 m (p + k) := fun k hk =>
    loadU32_congr fun i hi => by
      rw [Nat.add_assoc]
      exact h (k + i) (by omega)
  have hsize : descSize m' p = descSize m p := word 16 (by omega)
  have hname : fieldString m' p 16 = fieldString m p 16 := fieldString_congr fun i hi => h i (by omega)
  simp only [itemAt, hsize, hname, word 20 (by omega), word 24 (by omega)]

theorem itemAt_congr {m m' : Memory} {p : Nat} (h : ∀ i, i < 28 + (descSize m p).toNat → m' (p + i) = m (p + i)) :
    itemAt m' p = itemAt m p := by
  have hdata : load m' (p + 28) (descSize m p).toNat = load m (p + 28) (descSize m p).toNat :=
    load_congr fun i hi => by
      rw [Nat.add_assoc]
      exact h (28 + i) (by omega)
  rw [itemAt_data fun i hi => h i (by omega), hdata]
  rfl

theorem idmeItemNext_congr {m m' : Memory} {p : Nat} (h : descSize m' p = descSize m p) : idmeItemNext m' p = idmeItemNext m p := by
  rw [idmeItemNext_eq, idmeItemNext_eq, h]

theorem itemsFrom_congr {m m' : Memory} (count p : Nat) (h : ∀ a, p ≤ a → m' a = m a) :
    itemsFrom m' count p = itemsFrom m count p := by
  induction count generalizing p with
  | zero => rfl
  | succ count ih =>
    have hitem : itemAt m' p = itemAt m p := itemAt_congr fun i _ => h (p + i) (by omega)
    have hnext : idmeItemNext m' p = idmeItemNext m p := idmeItemNext_congr (congrArg IdmeItem.size hitem)
    simp only [itemsFrom, hitem, hnext]
    rw [ih _ fun a ha => h a (by rw [idmeItemNext_eq] at ha; omega)]

theorem idmeFindItem_ge {name : CString} {m : Memory} {count p q : Nat}
    (h : idmeFindItem name m count p = some q) : p ≤ q := by
  fun_induction idmeFindItem name m count p with
  | case1 => exact nomatch h
  | case2 => exact Nat.le_of_eq (Option.some.inj h)
  | case3 _ _ _ ih =>
    have := ih h
    rw [idmeItemNext_eq] at this
    omega

theorem idmeFindItem_lookup (name : CString) (m : Memory) (count p : Nat) (ht : NamesTerminated (itemsFrom m count p)) :
    (idmeFindItem name m count p).map (itemAt m) = lookupItem name (itemsFrom m count p) := by
  induction count generalizing p with
  | zero => rfl
  | succ count ih =>
    have hhead : (itemAt m p).name.length < 16 := ht _ (by simp [itemsFrom])
    have hrest := ih (idmeItemNext m p) fun it hit => ht it (by simp [itemsFrom, hit])
    have hcmp := strcmpEq_fieldString name.bytes name.noNul m p 16 hhead
    by_cases hname : (itemAt m p).name = name.bytes
    · have hc : strcmpEq name.bytes m p = true := hcmp.mpr hname.symm
      simp [idmeFindItem, hc, lookupItem, itemsFrom, hname]
    have hc : strcmpEq name.bytes m p = false := by
      rw [Bool.eq_false_iff]
      exact fun hc => hname (hcmp.mp hc).symm
    simp only [idmeFindItem, hc, Bool.false_eq_true, if_false, hrest]
    simp [lookupItem, itemsFrom, hname]

/-- A write confined to the data of the found item is an assignment on the
decoded list. -/
theorem itemsFrom_assign {name : CString} {m m' : Memory} {count p q : Nat} (ht : NamesTerminated (itemsFrom m count p))
    (hfound : idmeFindItem name m count p = some q)
    (hframe : ∀ a, a < q + 28 ∨ q + 28 + (descSize m q).toNat ≤ a → m' a = m a) (newData : IdmeItem → List UInt8)
    (hdata : load m' (q + 28) (descSize m q).toNat = newData (itemAt m q)) :
    itemsFrom m' count p = assignItem name newData (itemsFrom m count p) := by
  induction count generalizing p with
  | zero => simp [idmeFindItem] at hfound
  | succ count ih =>
    have hhead : (itemAt m p).name.length < 16 := ht _ (by simp [itemsFrom])
    have hcmp := strcmpEq_fieldString name.bytes name.noNul m p 16 hhead
    have hstride := stride_ge (descSize m p)
    simp only [idmeFindItem] at hfound
    split at hfound
    · rename_i hc
      simp only [Option.some.injEq] at hfound
      subst hfound
      have hname : (itemAt m p).name = name.bytes := (hcmp.mp hc).symm
      have hitem : itemAt m' p = { itemAt m p with data := newData (itemAt m p) } := by
        rw [← hdata]
        exact itemAt_data fun i hi => hframe _ (by omega)
      have hnext : idmeItemNext m' p = idmeItemNext m p := idmeItemNext_congr (congrArg IdmeItem.size hitem)
      have hrest : itemsFrom m' count (idmeItemNext m p) = itemsFrom m count (idmeItemNext m p) :=
        itemsFrom_congr _ _ fun a ha => hframe a (by rw [idmeItemNext_eq] at ha; omega)
      simp only [itemsFrom, assignItem, hname, if_true, hitem, hnext, hrest]
    · rename_i hc
      have hname : (itemAt m p).name ≠ name.bytes := fun h => hc (hcmp.mpr h.symm)
      have hge := idmeFindItem_ge hfound
      rw [idmeItemNext_eq] at hge
      have hitem : itemAt m' p = itemAt m p :=
        itemAt_congr fun i hi => hframe _ (by omega)
      have hnext : idmeItemNext m' p = idmeItemNext m p := idmeItemNext_congr (congrArg IdmeItem.size hitem)
      have hrest := ih (fun it hit => ht it (by simp [itemsFrom, hit])) hfound
      simp only [itemsFrom, assignItem, hname, if_false, hitem, hnext, hrest]

end AmlogicV901d.Source.Idme
