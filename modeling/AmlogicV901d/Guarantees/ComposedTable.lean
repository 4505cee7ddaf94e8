import AmlogicV901d.Lib.Upsert
import AmlogicV901d.Source.Emmc.DeviceInit

/-!
# The composed partition table has the last record of every name

`compose_ept` takes the entries of the inherent table and then those of the device tree
until one has size -1. Tables in which only the last entry of the device tree has that
size are taken whole, and nothing behind them is read. Every name is then in the composed
table once, where it stood first, with its last record. An entry of size -1 before the
end hides the rest.
-/
namespace AmlogicV901d.Guarantees.ComposedTable
open Lib.Upsert List
open Source.Emmc

variable {dtb inh front ept : List Partitions} {p final : Partitions} {n : Nat}

/-- The name of an entry, as far as the field has it. -/
def fieldName (p : Partitions) : List UInt8 := p.name.toList.takeWhile (· != 0)

theorem nameString_eq (h : 0 ∈ p.name.toList) : p.nameString = fieldName p := by
  unfold Partitions.nameString fieldName Partitions.encode
  simp only [append_assoc]
  rw [takeWhile_append, if_neg]
  intro hlen
  rw [(List.takeWhile_prefix _).eq_of_length hlen |>.symm] at h
  simpa using all_eq_true.mp all_takeWhile 0 h

theorem placeEntry_eq_upsert (ept : List Partitions) (src : Partitions) :
    placeEntry ept src = upsert Partitions.nameString ept src := by
  induction ept with
  | nil => rfl
  | cons p ept ih =>
    unfold placeEntry isPrioPartition at ih ⊢
    rw [findIdx?_cons, upsert]
    by_cases h : p.nameString = src.nameString
    · simp [h]
    · rw [← ih, if_neg h]
      cases hfind : ept.findIdx? fun p => p.nameString == src.nameString <;> simp [h]

theorem composeFrom_eq (hfront : ∀ p ∈ front, p.size ≠ fillMarker) (hfinal : final.size = fillMarker)
    (hroom : front.length < n) :
    composeFrom n (front ++ [final]) ept = some ((front ++ [final]).foldl placeEntry ept) := by
  induction front generalizing n ept with
  | nil =>
    obtain ⟨n, rfl⟩ := Nat.exists_eq_add_of_lt hroom
    simp [composeFrom, hfinal]
  | cons p front ih =>
    obtain ⟨n, rfl⟩ := Nat.exists_eq_add_of_lt hroom
    have hnext := hfront p mem_cons_self
    rw [cons_append, composeFrom, if_neg hnext, foldl_cons]
    apply ih
    · exact fun q hq => hfront q (mem_cons_of_mem p hq)
    · rw [length_cons]
      omega

theorem composed_table (inh front : List Partitions) (final : Partitions)
    (hroom : inh.length + (front ++ [final]).length ≤ maxMmcPartNum) (hfinal : final.size = fillMarker)
    (hbefore : ∀ p ∈ inh ++ front, p.size ≠ fillMarker)
    (hnames : ∀ p ∈ inh ++ (front ++ [final]), 0 ∈ p.name.toList) :
    let all := inh ++ (front ++ [final])
    ∃ ept, composeEpt (front ++ [final]) inh = some ept ∧ (ept.map fieldName).Nodup ∧
      (ept.map fieldName).Pairwise (fun a b =>
        all.findIdx (fun p => fieldName p = a) < all.findIdx fun p => fieldName p = b) ∧
      (∀ name, name ∈ ept.map fieldName ↔ name ∈ all.map fieldName) ∧
      ∀ p ∈ ept, all.reverse.find? (fun q => fieldName q = fieldName p) = some p := by
  intro all
  have hput : placeEntry = upsert Partitions.nameString := by
    funext ept src
    exact placeEntry_eq_upsert ept src
  have hnil : Collected Partitions.nameString [] [] := Collected.nil
  have hall := hnil.foldl all
  have hcollected := hall.congr fun p hp => nameString_eq (hnames p hp)
  refine ⟨all.foldl placeEntry [], ?_, ?_⟩
  · unfold composeEpt all
    rw [← append_assoc]
    apply composeFrom_eq hbefore hfinal
    simp only [length_append, length_singleton] at hroom ⊢
    omega
  · rw [hput]
    exact ⟨hcollected.nodup, hcollected.order, hcollected.keys, hcollected.last⟩

def named (letter : UInt8) (size : UInt64) : Partitions :=
  ⟨#v[letter, 0, 0, 0, 0, 0, 0, 0, 0, 0, 0, 0, 0, 0, 0, 0], size, 0, 0, 0⟩

/-- The inherent entries `b` and `e`; a device tree with a new size for `e` and with `d`. -/
theorem composed_table_overridden :
    composeEpt ([named 0x65 8] ++ [named 0x64 fillMarker]) [named 0x62 4, named 0x65 1] =
        some [named 0x62 4, named 0x65 8, named 0x64 fillMarker] ∧
      ∃ ept, composeEpt ([named 0x65 8] ++ [named 0x64 fillMarker]) [named 0x62 4, named 0x65 1] = some ept ∧
        (ept.map fieldName).Nodup := by
  refine ⟨by decide, ?_⟩
  obtain ⟨ept, hept, hnodup, -⟩ := composed_table [named 0x62 4, named 0x65 1] [named 0x65 8] (named 0x64 fillMarker)
    (by decide) (by decide) (by decide) (by decide)
  exact ⟨ept, hept, hnodup⟩

/-- An inherent entry that takes the rest of the device keeps the device tree out. -/
theorem filled_early_hides_rest :
    let inh := [named 0x62 fillMarker]
    let dtb := [named 0x65 8, named 0x64 fillMarker]
    inh.length + dtb.length ≤ maxMmcPartNum ∧ dtb.getLast?.map (·.size) = some fillMarker ∧
      composeEpt dtb inh = some inh ∧ fieldName (named 0x65 8) ∉ inh.map fieldName := by
  decide

end AmlogicV901d.Guarantees.ComposedTable
