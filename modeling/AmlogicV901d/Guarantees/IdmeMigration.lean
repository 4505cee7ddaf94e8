import AmlogicV901d.Source.Idme.Migration

/-!
# When table migration keeps stored values

`migratedItem` states what a migrated item should be; `overlaidItem` is what
cmd_idme_v2_0.c:179-212 leaves. They differ on grown items whose default string
is longer than the stored item: `IDME_ITEM_INIT` has already written the default
when the stored bytes are copied over its start.
-/
namespace AmlogicV901d.Guarantees.IdmeMigration
open Lib.ByteMemory Lib.Strings Source.Idme List

/-- "Use current value if same or expanded size, otherwise keep the default value." -/
def migratedItem (stored : List IdmeItem) (e : IdmeInitValues) : IdmeItem :=
  match lookupItem e.name stored with
  | none => defaultItem e
  | some it =>
    { name := e.name.bytes
      size := e.size
      exportable := it.exportable
      permission := it.permission
      data :=
        if it.size ≤ e.size then it.data ++ List.replicate (e.size.toNat - it.size.toNat) 0
        else padTo e.size.toNat e.value.bytes }

/-- No grown item has a default value longer than its stored data. -/
def GrownDefaultsShort (stored : List IdmeItem) (table : List IdmeInitValues) : Prop :=
  ∀ e ∈ table, ∀ it, lookupItem e.name stored = some it → it.size < e.size → strlen e.value ≤ it.size.toNat

/-- The bytes behind the first `k` of a padded string are zero exactly when the
string ends there: it has no NUL of its own. -/
theorem padTo_drop_zero_iff (n k : Nat) (value : CString) :
    (padTo n value.bytes).drop k = List.replicate (n - k) 0 ↔ (k < n → strlen value ≤ k) := by
  constructor
  · intro h hkn
    rcases Nat.lt_or_ge k (strlen value) with hlong | hle
    · have hpos : 0 < n - k := by omega
      have hzero : (padTo n value.bytes).getD k 0 = 0 := by
        have hget := congrArg (fun l => l[0]?.getD 0) h
        simp only [getElem?_drop, getElem?_replicate, Nat.add_zero, if_pos hpos, Option.getD_some] at hget
        rw [getD_eq_getElem?_getD, hget]
      rw [padTo_getD, if_pos hkn, getD_eq_getElem?_getD, getElem?_eq_getElem hlong] at hzero
      exact absurd (hzero ▸ getElem_mem hlong) value.noNul
    · exact hle
  · intro h
    apply ext_getElem (by simp)
    intro i hi _
    have hkn : k < n := by simp at hi; omega
    have hshort : value.bytes.length ≤ k := h hkn
    have hpad := padTo_getD n value.bytes (k + i)
    have hlen : k + i < (padTo n value.bytes).length := by simp at hi ⊢; omega
    rw [getD_eq_getElem?_getD, getElem?_eq_getElem hlen, getD_eq_getElem?_getD,
      getElem?_eq_none (by omega)] at hpad
    simpa using hpad

theorem overlaidItem_eq_iff (stored : List IdmeItem) (e : IdmeInitValues) :
    overlaidItem stored e = migratedItem stored e ↔ ∀ it, lookupItem e.name stored = some it → it.size < e.size →
        strlen e.value ≤ it.size.toNat := by
  unfold overlaidItem migratedItem
  cases hlook : lookupItem e.name stored with
  | none => simp
  | some it =>
    have htail := padTo_drop_zero_iff e.size.toNat it.size.toNat e.value
    by_cases hgrow : it.size ≤ e.size
    · simp only [if_pos hgrow, IdmeItem.mk.injEq, true_and, append_cancel_left_eq, htail,
        Option.some.injEq, forall_eq', UInt32.lt_iff_toNat_lt]
    · have hnot : ¬ it.size < e.size := fun h => hgrow (UInt32.le_of_lt h)
      simp only [if_neg hgrow, Option.some.injEq, forall_eq', hnot, false_implies]

/-- A migration that replaces the image keeps stored values exactly when no
grown item has a longer default. It always returns, and an image it does not
replace is unchanged. -/
theorem idme_migration_keeps_values_iff (table : List IdmeInitValues) (fresh : Option Memory) (m : Memory)
    (hm : StoredImage m) (hnames : NamesShort table) (hfits : TableFits configIdmeSize 16 table) :
    ∃ ret m', idmeUpdateTableV2p0 table fresh (some m) = some (ret, some m') ∧ (ret ≠ 0 → m' = m) ∧
      (ret = 0 → (idmeItems m' = table.map (migratedItem (idmeItems m)) ↔ GrownDefaultsShort (idmeItems m) table)) := by
  obtain ⟨ret, m', hrun, hsame, hitems⟩ := idmeUpdateTable_spec table fresh m hm hnames hfits
  refine ⟨ret, m', hrun, hsame, fun hret => ?_⟩
  rw [(hitems hret).2, map_inj_left, GrownDefaultsShort]
  exact forall₂_congr fun e _ => overlaidItem_eq_iff (idmeItems m) e

/-- Serial number item as stored ("1234" in four bytes) … -/
def storedEntry : IdmeInitValues :=
  ⟨⟨[0x73, 0x6e], by decide⟩, 4, 1, 292, ⟨[0x31, 0x32, 0x33, 0x34], by decide⟩⟩

/-- … and in a default table that grows it to eight bytes of "00000000". -/
def grownEntry : IdmeInitValues :=
  ⟨⟨[0x73, 0x6e], by decide⟩, 8, 1, 292, ⟨List.replicate 8 0x30, by decide⟩⟩

def storedSample : Memory := ((idmeInitVarV2p0 [storedEntry] zeroed).map (·.2)).getD zeroed

theorem storedSample_stored : StoredImage storedSample := by
  refine ⟨by decide, by decide, ?_, ?_⟩
  · unfold NamesTerminated
    decide
  · exact ⟨by decide, trivial⟩

/-- The grown serial number becomes "12340000" instead of "1234" and zeros. -/
theorem idme_migration_leaves_default_tail : StoredImage storedSample ∧
      ∃ m', idmeUpdateTableV2p0 [grownEntry] (some zeroed) (some storedSample) = some (0, some m') ∧
        (idmeItems m').map (·.data) = [[0x31, 0x32, 0x33, 0x34, 0x30, 0x30, 0x30, 0x30]] ∧
        idmeItems m' ≠ [grownEntry].map (migratedItem (idmeItems storedSample)) := by
  refine ⟨storedSample_stored, _, rfl, by decide, by decide⟩

/-- The same growth with a default no longer than the stored item. -/
theorem idme_migration_keeps_values_sample :
    ∃ ret m', idmeUpdateTableV2p0 [{ grownEntry with value := storedEntry.value }] (some zeroed)
        (some storedSample) = some (ret, some m') ∧ (ret ≠ 0 → m' = storedSample) ∧
      (ret = 0 → (idmeItems m' = [{ grownEntry with value := storedEntry.value }].map
          (migratedItem (idmeItems storedSample)) ↔ GrownDefaultsShort (idmeItems storedSample)
          [{ grownEntry with value := storedEntry.value }])) :=
  idme_migration_keeps_values_iff [{ grownEntry with value := storedEntry.value }] (some zeroed)
    storedSample storedSample_stored (by unfold NamesShort; decide) ⟨by decide, trivial⟩

end AmlogicV901d.Guarantees.IdmeMigration
