import Mathlib.Data.List.TakeDrop
import AmlogicV901d.Source.Idme.FlagText

/-!
# Flags by name

The text of the flags has a name for every known bit and a number for the others. It says which
flags are set, and a text that does not fit is announced with its size. A text that fills the
buffer without its NUL is taken for a complete one.
-/
namespace AmlogicV901d.Guarantees.FlagNames
open Source.Idme List

variable {names : List (List Char)} {flags other k bufsize : Nat} {t : List Char}

/-! ## What is asked -/

/-- The names of the set bits from bit `k` on, and the number of the bits that have none. -/
def parts (k : Nat) (names : List (List Char)) (flags : Nat) : List (List Char) :=
  ((names.zipIdx k).filter fun name => flags.testBit name.2).map Prod.fst ++
    if flags >>> (k + names.length) = 0 then []
    else [unknownFlags ((flags >>> (k + names.length)) <<< (k + names.length))]

/-- `FOS_FLAGS_NONE` is for no flag, and the other names are for the bits. -/
def entries (flags : UInt64) : List (List Char) :=
  if flags = 0 then [idmeFlagsTable.headD []] else parts 0 idmeFlagsTable.tail flags.toNat

def text (flags : UInt64) : List Char := ['|'].intercalate (entries flags)

/-- The complete text is stored exactly if the result is 0, other results are sizes to succeed
with, and no other flags have the text. -/
structure Faithful (flags : UInt64) (buf : Bool) (bufsize : UInt32) : Prop where
  stored : (fosFlagsToStr flags buf bufsize).1 = 0 ↔ (fosFlagsToStr flags buf bufsize).2 = text flags ++ ['\x00']
  announced : (fosFlagsToStr flags buf bufsize).1 ≠ 0 → ∃ size : UInt32, size.toNat = (fosFlagsToStr flags buf bufsize).1 ∧
    fosFlagsToStr flags true size = (0, text flags ++ ['\x00'])
  distinct : ∀ others, text others = text flags → others = flags

/-! ## The number of the unknown bits -/

theorem digitChar_inj : ∀ a < 16, ∀ b < 16, Nat.digitChar a = Nat.digitChar b → a = b := by decide

theorem toDigits_inj {n m : Nat} (h : Nat.toDigits 16 n = Nat.toDigits 16 m) : n = m := by
  induction n using Nat.strongRecOn generalizing m with
  | ind n ih =>
    rw [Nat.toDigits_eq_if (by decide), @Nat.toDigits_eq_if 16 m (by decide)] at h
    split at h <;> split at h
    next hn hm => exact digitChar_inj n hn m hm (List.cons.inj h).1
    next => exact absurd (congrArg List.length h) (by simp)
    next => exact absurd (congrArg List.length h) (by simp)
    next hn hm =>
      obtain ⟨hhigh, hlow⟩ := append_inj' h rfl
      have hdiv := ih (n / 16) (by omega) hhigh
      have hmod := digitChar_inj _ (Nat.mod_lt n (by decide)) _ (Nat.mod_lt m (by decide)) (List.cons.inj hlow).1
      omega

theorem bar_not_mem_toDigits (n : Nat) : '|' ∉ Nat.toDigits 16 n := by
  induction n using Nat.strongRecOn with
  | ind n ih =>
    rw [Nat.toDigits_eq_if (by decide)]
    split
    next => simp
    next => simpa using ih (n / 16) (by omega)

/-! ## The text says which flags are set -/

theorem testBit_eq (f k : Nat) : f.testBit k = decide (f >>> k % 2 = 1) := by
  rw [← Nat.testBit_zero, Nat.testBit_shiftRight, Nat.add_zero]

theorem parts_cons (name : List Char) :
    parts k (name :: names) flags = (if flags.testBit k then [name] else []) ++ parts (k + 1) names flags := by
  rw [parts, zipIdx_cons, filter_cons, length_cons, parts, Nat.add_right_comm k 1, Nat.add_assoc]
  split <;> rfl

theorem mem_parts (h : t ∈ parts k names flags) : t ∈ names ∨ ∃ n, t = unknownFlags n := by
  rcases mem_append.mp h with h | h
  · obtain ⟨name, hname, rfl⟩ := mem_map.mp h
    exact .inl (fst_mem_of_mem_zipIdx (mem_filter.mp hname).1)
  · split at h
    next => cases h
    next => exact .inr ⟨_, mem_singleton.mp h⟩

/-- No name is used twice or for a number. -/
def Plain (names : List (List Char)) : Prop := names.Nodup ∧ ∀ name ∈ names, '!' ∉ name ∧ '|' ∉ name ∧ name ≠ []

instance (names : List (List Char)) : Decidable (Plain names) := inferInstanceAs (Decidable (_ ∧ ∀ _ ∈ _, _))

theorem bang_mem_unknownFlags (n : Nat) : '!' ∈ unknownFlags n := mem_append_right _ (mem_singleton_self _)

theorem plain_table : Plain idmeFlagsTable.tail := by decide +kernel

/-- The lowest bit is the one its name stands for, by induction over the names. -/
theorem parts_inj (hplain : Plain names) (h : parts k names flags = parts k names other) : flags >>> k = other >>> k := by
  induction names generalizing k with
  | nil =>
    simp only [parts, zipIdx_nil, filter_nil, map_nil, nil_append, length_nil, Nat.add_zero] at h
    split at h <;> split at h
    next hf ho => rw [hf, ho]
    next => cases h
    next => cases h
    next =>
      have hshift := toDigits_inj (append_cancel_left (append_cancel_right (List.cons.inj h).1))
      rw [Nat.shiftLeft_eq, Nat.shiftLeft_eq] at hshift
      exact Nat.eq_of_mul_eq_mul_right (Nat.two_pow_pos k) hshift
  | cons name names ih =>
    obtain ⟨hnodup, hall⟩ := hplain
    rw [nodup_cons] at hnodup
    rw [forall_mem_cons] at hall
    have hbit : ∀ f, name ∈ parts k (name :: names) f ↔ f.testBit k = true := by
      intro f
      have hrest : name ∉ parts (k + 1) names f := fun hmem => (mem_parts hmem).elim hnodup.1 fun ⟨n, hn⟩ =>
        hall.1.1 (hn ▸ bang_mem_unknownFlags n)
      rw [parts_cons, mem_append, or_iff_left hrest]
      split <;> simp_all
    have hsame : flags.testBit k = other.testBit k := by
      rw [Bool.eq_iff_iff, ← hbit, ← hbit, h]
    rw [parts_cons, parts_cons, hsame] at h
    have hhigh : flags >>> k / 2 = other >>> k / 2 := ih ⟨hnodup.2, hall.2⟩ (append_cancel_left h)
    rw [testBit_eq, testBit_eq, decide_eq_decide] at hsame
    omega

theorem parts_nil (h : flags >>> k = 0) : parts k names flags = [] := by
  induction names generalizing k with
  | nil => simp [parts, h]
  | cons name names ih =>
    have hhigh : flags >>> (k + 1) = 0 := by rw [Nat.shiftRight_succ, h]
    simp [parts_cons, testBit_eq, h, ih hhigh]

theorem parts_ne_nil (hplain : Plain names) (h : flags >>> k ≠ 0) : parts k names flags ≠ [] := fun hnil =>
  h ((parts_inj hplain (hnil.trans (parts_nil (Nat.zero_shiftRight k)).symm)).trans (Nat.zero_shiftRight k))

theorem bar_not_mem_unknownFlags (n : Nat) : '|' ∉ unknownFlags n := by
  have hhead : '|' ∉ "!UNKNOWN FLAGS 0x".toList := by decide +kernel
  intro hmem
  rcases mem_append.mp hmem with hmem | hbang
  · exact (mem_append.mp hmem).elim hhead (bar_not_mem_toDigits n)
  · exact nomatch hbang

theorem entries_plain (flags : UInt64) : entries flags ≠ [] ∧ ∀ t ∈ entries flags, '|' ∉ t ∧ t ≠ [] := by
  rw [entries]
  split
  next => decide +kernel
  next hset =>
    refine ⟨parts_ne_nil plain_table fun hzero => hset (UInt64.toNat_inj.mp hzero), fun t ht => ?_⟩
    obtain hname | ⟨n, rfl⟩ := mem_parts ht
    · exact (plain_table.2 t hname).2
    · exact ⟨bar_not_mem_unknownFlags n, ne_nil_of_mem (bang_mem_unknownFlags n)⟩

theorem splitOn_text (flags : UInt64) : (text flags).splitOn '|' = entries flags :=
  splitOn_intercalate '|' (fun t ht => ((entries_plain flags).2 t ht).1) (entries_plain flags).1

theorem text_ne_nil (flags : UInt64) : text flags ≠ [] := by
  intro hnil
  have hempty : [] ∈ entries flags := by simp [← splitOn_text, hnil]
  exact ((entries_plain flags).2 [] hempty).2 rfl

theorem none_not_mem_parts : idmeFlagsTable.headD [] ∉ parts 0 idmeFlagsTable.tail flags := by
  intro hmem
  obtain hname | ⟨n, hn⟩ := mem_parts hmem
  · exact absurd hname (by decide +kernel)
  · have hbang : '!' ∈ idmeFlagsTable.headD [] := hn ▸ bang_mem_unknownFlags n
    exact absurd hbang (by decide +kernel)

theorem text_inj {flags others : UInt64} (h : text others = text flags) : others = flags := by
  have hsame : entries others = entries flags := by rw [← splitOn_text, h, splitOn_text]
  simp only [entries] at hsame
  split at hsame <;> split at hsame
  next ho hf => rw [ho, hf]
  next => exact absurd (hsame ▸ mem_singleton_self _) none_not_mem_parts
  next => exact absurd (hsame ▸ mem_singleton_self _) none_not_mem_parts
  next => exact UInt64.toNat_inj.mp (parts_inj plain_table hsame)

/-! ## What is written -/

/-- What a buffer has of a text. -/
def written (bufsize : Nat) (text : List Char) : List Char :=
  if bufsize = 0 ∨ text = [] then [] else text.take (bufsize - 1) ++ ['\x00']

/-- The state after a text. -/
def after (bufsize : Nat) (text : List Char) : Printed := ⟨written bufsize text, text.length, min text.length bufsize⟩

theorem take_written (u : List Char) (hroom : u.length < bufsize) : (written bufsize u).take u.length = u := by
  rw [written]
  split
  next h => simp [h.resolve_left (by omega)]
  next => rw [take_of_length_le (i := bufsize - 1) (by omega), take_left]

theorem snprintf_after (u : List Char) (ht : t ≠ []) :
    (after bufsize u).snprintf bufsize t = after bufsize (u ++ t) := by
  suffices hbuf : ((after bufsize u).snprintf bufsize t).buf = written bufsize (u ++ t) by
    rw [after.eq_def bufsize (u ++ t), ← hbuf, length_append]
    rfl
  change (if bufsize - min u.length bufsize = 0 then written bufsize u else
    (written bufsize u).take (min u.length bufsize) ++ t.take (bufsize - min u.length bufsize - 1) ++ _) = _
  by_cases hroom : u.length < bufsize
  · rw [if_neg (by omega), Nat.min_eq_left (by omega), take_written u hroom, written,
      if_neg (by simp [ht, Nat.ne_zero_of_lt hroom]), take_append,
      take_of_length_le (l := u) (by omega), Nat.sub_right_comm]
  rw [if_pos (by omega)]
  by_cases hzero : bufsize = 0
  · simp [written, hzero]
  · have hu : u ≠ [] := ne_nil_of_length_pos (by omega)
    rw [written, written, if_neg (by simp [hzero, hu]), if_neg (by simp [hzero, ht]), take_append_of_le_length (by omega)]

/-- By induction over the names; a flag is set until the loop is left. -/
theorem handleUnknown_flagLoop (hk : k + names.length = idmeFlagsTable.length - 1) (hplain : Plain names)
    (hset : flags >>> k ≠ 0) (u : List Char) :
    handleUnknown bufsize (flagLoop bufsize names (flags >>> k) (after bufsize u)) =
      after bufsize (u ++ ['|'].intercalate (parts k names flags)) := by
  induction names generalizing k u with
  | nil =>
    rw [flagLoop, handleUnknown, if_neg hset, snprintf_after u (ne_nil_of_mem (bang_mem_unknownFlags _)), ← hk]
    simp [parts, hset]
  | cons name names ih =>
    have hname := hplain.2 name mem_cons_self
    have hrest : Plain names := ⟨(nodup_cons.mp hplain.1).2, fun n hn => hplain.2 n (mem_cons_of_mem name hn)⟩
    have hhigh : flags >>> k / 2 = flags >>> (k + 1) := rfl
    rw [flagLoop, parts_cons, testBit_eq]
    by_cases hlast : flags >>> (k + 1) = 0
    · have hone : flags >>> k = 1 := by rw [← hhigh] at hlast; omega
      simp [hone, handleUnknown, snprintf_after u hname.2.2, parts_nil hlast]
    have ih := fun u => ih (k := k + 1) (by simpa [Nat.add_right_comm, Nat.add_assoc] using hk) hrest hlast u
    have hmany : ¬ flags >>> k ≤ 1 := fun hle => hlast (Nat.div_eq_of_lt (Nat.lt_succ_of_le hle))
    simp only [hhigh, if_neg hlast, if_neg hmany]
    by_cases hodd : flags >>> k % 2 = 1
    · simp [hodd, snprintf_after u, ih, intercalate_cons_of_ne_nil (parts_ne_nil hrest hlast)]
    · simp [hodd, ih]

theorem length_intercalate_cons (t : List Char) (ts : List (List Char)) :
    (['|'].intercalate (t :: ts)).length ≤ t.length + 1 + (['|'].intercalate ts).length := by
  cases ts
  next => simp
  next => simp; omega

theorem length_unknownFlags {n : Nat} (hn : n < 1 <<< 64) : (unknownFlags n).length ≤ 34 := by
  have hdigits := (Nat.length_toDigits_le_iff (b := 16) (k := 16) (by decide) (by decide)).mpr hn
  have hhead : "!UNKNOWN FLAGS 0x".toList.length = 17 := by decide +kernel
  have hlen : (unknownFlags n).length = "!UNKNOWN FLAGS 0x".toList.length + (Nat.toDigits 16 n).length + 1 :=
    length_append.trans (congrArg (· + 1) length_append)
  omega

theorem length_parts (hflags : flags < 1 <<< 64) :
    (['|'].intercalate (parts k names flags)).length ≤ names.flatten.length + names.length + 34 := by
  induction names generalizing k with
  | nil =>
    have hback : flags >>> k <<< k ≤ flags := by
      rw [Nat.shiftLeft_eq, Nat.shiftRight_eq_div_pow]
      exact Nat.div_mul_le_self flags _
    have hlen := length_unknownFlags (Nat.lt_of_le_of_lt hback hflags)
    by_cases h : flags >>> k = 0
    · simp [parts_nil h]
    · simpa [parts, h] using hlen
  | cons name names ih =>
    rw [parts_cons, flatten_cons, length_append, length_cons]
    have hrest := ih (k := k + 1)
    split
    next => have := length_intercalate_cons name (parts (k + 1) names flags); simp only [singleton_append]; omega
    next => simp only [nil_append]; omega

theorem length_text (flags : UInt64) : (text flags).length + 1 < UInt32.size := by
  have htable : idmeFlagsTable.tail.flatten.length + idmeFlagsTable.tail.length + 36 < UInt32.size := by decide +kernel
  rw [text, entries]
  split
  next => decide +kernel
  next => have := @length_parts idmeFlagsTable.tail flags.toNat 0 flags.toNat_lt; omega

theorem fosFlagsToStr_eq (flags : UInt64) (buf : Bool) (bufsize : UInt32) : fosFlagsToStr flags buf bufsize =
      (if (text flags).length ≤ (if buf then bufsize.toNat else 0) then 0 else (text flags).length + 1,
        written (if buf then bufsize.toNat else 0) (text flags)) := by
  suffices hafter : ∀ size, handleUnknown size
      (if flags = 0 then (0, .snprintf size (idmeFlagsTable.headD []) ⟨[], 0, 0⟩)
      else flagLoop size idmeFlagsTable.tail flags.toNat ⟨[], 0, 0⟩) = after size (text flags) by
    rw [fosFlagsToStr, hafter]
    rfl
  intro size
  have hstart : (⟨[], 0, 0⟩ : Printed) = after size [] := by simp [after, written]
  rw [text, entries, hstart]
  split
  next => exact snprintf_after [] (by decide +kernel)
  next hset => exact handleUnknown_flagLoop (k := 0) rfl plain_table (fun hzero => hset (UInt64.toNat_inj.mp hzero)) []

theorem written_eq_iff (ht : t ≠ []) : written bufsize t = t ++ ['\x00'] ↔ t.length < bufsize := by
  rw [written]
  split
  next h => simp [h.resolve_right ht]
  next h =>
    rw [append_left_inj, take_eq_self_iff]
    omega

theorem faithful_iff (flags : UInt64) (buf : Bool) (bufsize : UInt32) :
    Faithful flags buf bufsize ↔ ¬ (buf = true ∧ (text flags).length = bufsize.toNat) := by
  have hstored : ((fosFlagsToStr flags buf bufsize).1 = 0 ↔ (fosFlagsToStr flags buf bufsize).2 = text flags ++ ['\x00']) ↔
      ¬ (buf = true ∧ (text flags).length = bufsize.toNat) := by
    simp only [fosFlagsToStr_eq, written_eq_iff (text_ne_nil flags)]
    cases buf
    next => simp [text_ne_nil]
    next => simp; omega
  refine ⟨fun h => hstored.mp h.stored, fun h => ⟨hstored.mpr h, fun hfail => ?_, fun _ => text_inj⟩⟩
  have hsize : (UInt32.ofNat ((text flags).length + 1)).toNat = (text flags).length + 1 :=
    UInt32.toNat_ofNat_of_lt (length_text flags)
  refine ⟨UInt32.ofNat ((text flags).length + 1), ?_, ?_⟩
  · rw [hsize]
    rw [fosFlagsToStr_eq] at hfail ⊢
    exact (if_neg fun hle => hfail (if_pos hle)).symm
  · rw [fosFlagsToStr_eq, if_pos rfl, hsize, if_pos (Nat.le_succ _), (written_eq_iff (text_ne_nil flags)).mpr (Nat.lt_succ_self _)]

theorem fos_flags_none_exact_fit : ¬ Faithful 0 true 14 := by
  intro h
  exact absurd (h.stored.mp (by decide +kernel)) (by decide +kernel)

end AmlogicV901d.Guarantees.FlagNames
