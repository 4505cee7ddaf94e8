import Mathlib.Data.List.Basic
import AmlogicV901d.Source.Idme.BootInfo

/-!
# The number of boots

Every boot adds one to the number that the leading digits of the item denote, up to eight nines.
-/
namespace AmlogicV901d.Guarantees.BootCounter
open Lib.ByteMemory Lib.Strings Source.Idme List

/-! ## Decimal text -/

/-- The number that the leading decimal digits denote. -/
def leadingNumber (data : List UInt8) : Nat :=
  (data.takeWhile isDigit).foldl (fun v c => 10 * v + (c.toNat - 0x30)) 0

theorem isDigit_iff (c : UInt8) : isDigit c = true ↔ 0x30 ≤ c.toNat ∧ c.toNat ≤ 0x39 := by
  simp [isDigit, UInt8.le_iff_toNat_le]

theorem atoui_eq (s : List UInt8) (i : Nat) :
    atoui i s = (s.takeWhile isDigit).foldl (fun v c => 10 * v + (c.toNat - 0x30)) i := by
  fun_induction atoui i s with
  | case1 => rfl
  | case2 i c s hc ih =>
    have hle := ((isDigit_iff c).mp hc).1
    rw [ih, takeWhile_cons_of_pos hc, foldl_cons, Nat.mul_comm, Nat.add_sub_assoc hle]
  | case3 i c s hc =>
    rw [takeWhile_cons_of_neg hc]
    rfl

theorem foldl_digits_lt (s : List UInt8) (hs : ∀ c ∈ s, isDigit c = true) (v : Nat) :
    s.foldl (fun v c => 10 * v + (c.toNat - 0x30)) v < (v + 1) * 10 ^ s.length := by
  induction s generalizing v with
  | nil => simp
  | cons c s ih =>
    have hc := (isDigit_iff c).mp (hs c mem_cons_self)
    calc _ < (10 * v + (c.toNat - 0x30) + 1) * 10 ^ s.length := ih (fun x hx => hs x (.tail _ hx)) _
      _ ≤ ((v + 1) * 10) * 10 ^ s.length := Nat.mul_le_mul_right _ (by omega)
      _ = (v + 1) * 10 ^ (c :: s).length := by rw [length_cons, Nat.pow_succ, Nat.mul_assoc, Nat.mul_comm 10]

theorem leadingNumber_lt (data : List UInt8) : leadingNumber data < 10 ^ data.length := by
  have hdigits := foldl_digits_lt (data.takeWhile isDigit) (all_eq_true.mp all_takeWhile) 0
  have hshort := (List.takeWhile_prefix isDigit (l := data)).length_le
  exact Nat.lt_of_lt_of_le hdigits (by simpa using Nat.pow_le_pow_right (by omega) hshort)

theorem toNat_digit {c : Char} (h : c.isDigit = true) :
    (UInt8.ofNat c.toNat).toNat = c.toNat ∧ 0x30 ≤ c.toNat ∧ c.toNat ≤ 0x39 := by
  simp only [Char.isDigit, ge_iff_le, UInt32.le_iff_toNat_le, Bool.and_eq_true, decide_eq_true_eq] at h
  have hlow : 0x30 ≤ c.toNat := h.1
  have hhigh : c.toNat ≤ 0x39 := h.2
  exact ⟨by simp; omega, hlow, hhigh⟩

/-- The text of a number denotes it, whatever follows that is no digit. -/
theorem leadingNumber_decimal (n : Nat) {rest : List UInt8} (hrest : rest.takeWhile isDigit = []) :
    leadingNumber (decimal n ++ rest) = n := by
  have hchar : ∀ c ∈ Nat.toDigits 10 n, c.isDigit = true := fun c hc => Nat.isDigit_of_mem_toDigits (by omega) (by omega) hc
  have hall : ∀ c ∈ decimal n, isDigit c = true := by
    intro c hc
    obtain ⟨ch, hch, rfl⟩ := mem_map.mp hc
    have hdigit := toNat_digit (hchar ch hch)
    rw [isDigit_iff, hdigit.1]
    exact hdigit.2
  rw [leadingNumber, takeWhile_append_of_pos hall, hrest, append_nil, decimal, foldl_map]
  calc _ = (Nat.toDigits 10 n).foldl (fun v c => 10 * v + (c.toNat - '0'.toNat)) 0 := by
        apply foldl_ext
        intro v c hc
        rw [(toNat_digit (hchar c hc)).1]
        rfl
    _ = n := by rw [← Nat.ofDigitChars_eq_foldl, Nat.ofDigitChars_ten_toDigits]

/-! ## Boots -/

/-- A write that reaches the stored area. -/
structure Succeeds (wr : BlockCall) : Prop where
  found : wr.found = true
  switchBoot : wr.switchBoot = true
  transfer : wr.transfer = .complete
  switchUser : wr.switchUser = true

/-- An image in memory with its handlers; the first item of the name is `it`. -/
structure Counting (front : List IdmeItem) (it : IdmeItem) (back : List IdmeItem) (s : IdmeState) : Prop where
  data : s.pidmeData = true
  handlers : s.handlers = .v2p0
  magic : load s.gidmeBuff 0 8 = idmeMagicNumber
  items : idmeItems s.gidmeBuff = front ++ it :: back
  names : NamesTerminated (front ++ it :: back)
  first : ∀ x ∈ front, x.name ≠ bootcount.bytes
  name : it.name = bootcount.bytes
  size : it.size = 8
  length : it.data.length = 8

/-- The storage has the image. -/
def Stored (s : IdmeState) : Prop := ∀ a, a < configIdmeSize → s.area a = s.gidmeBuff a

def boots (wrs : List BlockCall) (s : IdmeState) : IdmeState := wrs.foldl (fun s wr => idmeBootInfo wr s) s

variable {front back : List IdmeItem} {it : IdmeItem} {s : IdmeState} {wr : BlockCall}

theorem lookupItem_first (hfirst : ∀ x ∈ front, x.name ≠ bootcount.bytes) (hname : it.name = bootcount.bytes) :
    lookupItem bootcount (front ++ it :: back) = some it := by
  have hnone : front.find? (fun x => x.name = bootcount.bytes) = none :=
    find?_eq_none.mpr fun x hx => by simpa using hfirst x hx
  rw [lookupItem, find?_append, hnone, Option.none_or, find?_cons_of_pos (by simpa using hname)]

theorem assignItem_first (hfirst : ∀ x ∈ front, x.name ≠ bootcount.bytes) (hname : it.name = bootcount.bytes)
    (newData : IdmeItem → List UInt8) :
    assignItem bootcount newData (front ++ it :: back) = front ++ { it with data := newData it } :: back := by
  induction front with
  | nil => rw [nil_append, assignItem, if_pos hname, nil_append]
  | cons x front ih =>
    rw [cons_append, assignItem, if_neg (hfirst x mem_cons_self), ih fun y hy => hfirst y (.tail _ hy)]
    rfl

/-- A text with its NUL in a buffer of nine bytes, of which eight are copied. -/
theorem load_text {m : Memory} {text : List UInt8} (h : load m 0 (text.length + 1) = text ++ [0])
    (hlen : text.length ≤ 8) : ∃ rest, load m 0 8 = text ++ rest ∧ rest.takeWhile isDigit = [] := by
  rcases Nat.lt_or_eq_of_le hlen with hlt | heq
  · obtain ⟨k, hk⟩ := Nat.exists_eq_add_of_le (Nat.succ_le_of_lt hlt)
    refine ⟨0 :: load m (text.length + 1) k, ?_, rfl⟩
    rw [hk, load_add, h, Nat.zero_add, append_assoc, singleton_append]
  · refine ⟨[], ?_, rfl⟩
    have htake := congrArg (List.take 8) h
    rwa [load_take, heq, take_left' heq, Nat.min_eq_left (by omega), ← append_nil text] at htake

theorem leadingNumber_printed (buf : Memory) {n : Nat} (h : n < 10 ^ 8) :
    leadingNumber (load (snprintf buf 9 (decimal n)) 0 8) = n := by
  have hlen : (decimal n).length ≤ 8 := by
    rw [decimal, length_map]
    exact (Nat.length_toDigits_le_iff (by omega) (by omega)).mpr h
  have htext := load_store buf 0 (decimal n ++ [0])
  rw [length_append] at htext
  obtain ⟨rest, hload, hrest⟩ := load_text htext hlen
  rw [snprintf, take_of_length_le hlen, hload, leadingNumber_decimal n hrest]

theorem platformWrite_of_succeeds (h : Succeeds wr) (area image : Memory) :
    idmePlatformWrite wr area (some image) = (0, memcpy area 0 image 0 configIdmeSize, [.written image]) := by
  have hblocks : ¬ (idmeNumOfEmmcBlocks : Int) < 0 := by decide
  simp [idmePlatformWrite, h.found, h.switchBoot, h.switchUser, h.transfer, Transfer.blkcnt, Transfer.apply, hblocks]

/-- What `idme_boot_info` reads: the item with the NUL behind it. -/
theorem atoui_read {data : List UInt8} (h : data.length = 8) :
    atoui 0 (load (store zeroed 0 (data.take (9 : UInt32).toNat)) 0 9) = leadingNumber data := by
  have hnul : load (store zeroed 0 data) 0 9 = data ++ [0] := by
    rw [show 9 = data.length + 1 by rw [h], load_add, load_store]
    simp [load, store_outside, zeroed]
  have hsame : (data ++ [0]).takeWhile isDigit = data.takeWhile isDigit := by
    rw [takeWhile_append]
    split
    · next hall => simp [(List.takeWhile_prefix isDigit).eq_of_length hall, isDigit]
    · rfl
  rw [take_of_length_le (by rw [h]; decide), hnul, atoui_eq, hsame, leadingNumber]

theorem updatedData_eq (value : Memory) (h : it.size = 8) :
    updatedData value (UInt32.ofNat configIdmeSize) it = load value 0 8 := by
  have hsize : min (8 : UInt32).toNat (UInt32.ofNat configIdmeSize).toNat = 8 := by decide
  rw [updatedData, h, hsize, padTo, load_length, take_of_length_le (by simp)]
  exact append_nil _

/-- One boot. -/
theorem bootInfo_counts (h : Counting front it back s) (hwr : Succeeds wr) :
    ∃ data, leadingNumber data = min (leadingNumber it.data + 1) 99999999 ∧
      Counting front { it with data := data } back (idmeBootInfo wr s) ∧ (Stored s → Stored (idmeBootInfo wr s)) := by
  have hlook : lookupItem bootcount (front ++ it :: back) = some it := lookupItem_first h.first h.name
  have hpidme : s.pidme = some s.gidmeBuff := by rw [IdmeState.pidme, if_pos h.data]
  have hnames : NamesTerminated (idmeItems s.gidmeBuff) := h.items ▸ h.names
  have hget := idmeGetVar_spec bootcount zeroed 9 s.gidmeBuff h.magic hnames
  rw [h.items, hlook] at hget
  have hlt := leadingNumber_lt it.data
  rw [h.length] at hlt
  unfold idmeBootInfo
  simp only [h.handlers, hpidme, hget, ne_eq, not_true_eq_false, if_false, Option.getD_some, atoui_read h.length]
  by_cases hmax : leadingNumber it.data = 99999999
  · rw [if_pos hmax]
    exact ⟨it.data, by omega, h, id⟩
  rw [if_neg hmax]
  generalize hbuf : snprintf _ 9 (decimal (leadingNumber it.data + 1)) = value
  rcases idmeUpdateVar_spec bootcount value (UInt32.ofNat configIdmeSize) s.gidmeBuff h.magic hnames with
    ⟨hnone, _⟩ | ⟨q, image, hfind, _, hupdate, hframe, hitems⟩
  · rw [h.items, hlook] at hnone
    cases hnone
  · rw [idmeUpdateVarEx_eq h.data h.handlers hupdate (platformWrite_of_succeeds hwr s.area image)]
    rw [h.items, assignItem_first h.first h.name, updatedData_eq value h.size] at hitems
    refine ⟨load value 0 8, by rw [← hbuf, leadingNumber_printed _ (by omega)]; omega, ?_, fun _ a ha => memcpy_start ha⟩
    constructor
    case data => exact h.data
    case handlers => exact h.handlers
    case magic => exact (load_congr fun i hi => hframe _ (by omega)).trans h.magic
    case items => exact hitems
    case names =>
      intro x hx
      simp only [mem_append, mem_cons] at hx
      rcases hx with hx | rfl | hx
      · exact h.names x (by simp [hx])
      · exact h.names it (by simp)
      · exact h.names x (by simp [hx])
    case first => exact h.first
    case name => exact h.name
    case size => exact h.size
    case length => exact load_length ..

/-- After any number of boots the number has grown by as many, up to eight nines, and no other
item has changed. -/
theorem boots_count (wrs : List BlockCall) (h : Counting front it back s) (hok : ∀ wr ∈ wrs, Succeeds wr) :
    ∃ data, leadingNumber data = min (leadingNumber it.data + wrs.length) 99999999 ∧
      Counting front { it with data := data } back (boots wrs s) ∧ (Stored s → Stored (boots wrs s)) := by
  induction wrs generalizing s it with
  | nil =>
    have hlt := leadingNumber_lt it.data
    rw [h.length] at hlt
    exact ⟨it.data, by simp only [length_nil]; omega, h, id⟩
  | cons wr wrs ih =>
    obtain ⟨data, hnumber, hcounting, hstored⟩ := bootInfo_counts h (hok wr mem_cons_self)
    obtain ⟨data', hnumber', hcounting', hstored'⟩ := ih hcounting fun x hx => hok x (.tail _ hx)
    refine ⟨data', ?_, hcounting', hstored' ∘ hstored⟩
    rw [hnumber', hnumber, length_cons]
    omega

/-- An image with the counter at "9x". -/
def bootImage : Memory :=
  ((idmeInitVarV2p0 [⟨bootcount, 8, 1, 292, ⟨[0x39, 0x78], by decide⟩⟩] zeroed).map (·.2)).getD zeroed

theorem boots_count_nine : ∃ data, leadingNumber data = 11 ∧
      Counting [] ⟨bootcount.bytes, 8, 1, 292, data⟩ [] (boots (List.replicate 2 ⟨true, true, .complete, true⟩) ⟨true, bootImage, .v2p0, bootImage⟩) := by
  have hcounting : Counting [] ⟨bootcount.bytes, 8, 1, 292, [0x39, 0x78, 0, 0, 0, 0, 0, 0]⟩ [] ⟨true, bootImage, .v2p0, bootImage⟩ := by
    refine ⟨rfl, rfl, by decide, by decide, ?_, by simp, rfl, rfl, rfl⟩
    unfold NamesTerminated
    decide
  obtain ⟨data, hnumber, h, _⟩ := boots_count (List.replicate 2 ⟨true, true, .complete, true⟩) hcounting
    fun wr hwr => by rw [eq_of_mem_replicate hwr]; exact ⟨rfl, rfl, rfl, rfl⟩
  exact ⟨data, hnumber, h⟩

end AmlogicV901d.Guarantees.BootCounter
