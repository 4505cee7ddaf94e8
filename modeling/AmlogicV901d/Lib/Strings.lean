import AmlogicV901d.Lib.ByteMemory

/-!
# NUL-terminated strings

`CString` carries the absence of an embedded NUL, so two strings are equal
exactly when their byte sequences are. The comparisons are those of the C
library, decided against a string that sits in a `Memory`; only the equality
verdict of `strcmp` and `strncmp` is represented, which is all the callers use.
-/
namespace AmlogicV901d.Lib.Strings
open ByteMemory List

structure CString where
  bytes : List UInt8
  noNul : 0 ∉ bytes
  deriving DecidableEq

def strlen (s : CString) : Nat := s.bytes.length

/-- `strcmp(t, m + p) == 0`. -/
def strcmpEq : List UInt8 → Memory → Nat → Bool
  | [], m, p => m p == 0
  | c :: cs, m, p => m p == c && strcmpEq cs m (p + 1)

/-- `strncmp(t, m + p, n) == 0`. -/
def strncmpEq : Nat → List UInt8 → Memory → Nat → Bool
  | 0, _, _, _ => true
  | _ + 1, [], m, p => m p == 0
  | n + 1, c :: cs, m, p => m p == c && strncmpEq n cs m (p + 1)

/-- The string stored in the `w`-byte field at `p`. -/
def fieldString (m : Memory) (p w : Nat) : List UInt8 :=
  (load m p w).takeWhile (· != 0)

theorem fieldString_noNul (m : Memory) (p w : Nat) : 0 ∉ fieldString m p w := by
  intro h
  have hall := all_takeWhile (p := (· != 0)) (l := load m p w)
  have hz := all_eq_true.mp hall 0 h
  simp at hz

theorem fieldString_congr {m m' : Memory} {p w : Nat}
    (h : ∀ i, i < w → m' (p + i) = m (p + i)) : fieldString m' p w = fieldString m p w := by
  rw [fieldString, fieldString, load_congr h]

/-- A terminated field decides `strcmp` by equality with its string. -/
theorem strcmpEq_fieldString (t : List UInt8) (ht : 0 ∉ t) (m : Memory) (p w : Nat)
    (hw : (fieldString m p w).length < w) : strcmpEq t m p = true ↔ t = fieldString m p w := by
  induction w generalizing t p with
  | zero => simp at hw
  | succ w ih =>
    have hstep : fieldString m p (w + 1) =
        if m p = 0 then [] else m p :: fieldString m (p + 1) w := by
      by_cases hz : m p = 0 <;> simp [fieldString, load, hz]
    rw [hstep] at hw ⊢
    by_cases hz : m p = 0
    · cases t with
      | nil => simp [strcmpEq, hz]
      | cons c cs =>
        have hc : c ≠ 0 := by
          intro hc
          simp [hc] at ht
        simp [strcmpEq, hz, Ne.symm hc]
    · simp only [if_neg hz, length_cons] at hw ⊢
      cases t with
      | nil => simp [strcmpEq, hz]
      | cons c cs =>
        have hcs : 0 ∉ cs := fun h => ht (.tail _ h)
        have hrec := ih cs hcs (p + 1) (by omega)
        simp only [strcmpEq, Bool.and_eq_true, beq_iff_eq, List.cons.injEq, hrec]
        constructor
        all_goals
          rintro ⟨rfl, h⟩
          exact ⟨rfl, h⟩

theorem strncmpEq_of_lt (n : Nat) (t : List UInt8) (m : Memory) (p : Nat) (h : t.length < n) :
    strncmpEq n t m p = strcmpEq t m p := by
  induction n generalizing t p with
  | zero => omega
  | succ n ih =>
    cases t with
    | nil => rfl
    | cons c cs =>
      simp only [strncmpEq, strcmpEq]
      rw [ih cs (p + 1) (by simpa using h)]

theorem strncmpEq_length (t : List UInt8) (m : Memory) (p : Nat) :
    strncmpEq t.length t m p = true ↔ load m p t.length = t := by
  induction t generalizing p with
  | nil => simp [strncmpEq, load]
  | cons c cs ih => simp [strncmpEq, load, ih]

theorem fieldString_of_bytes {m : Memory} {p w : Nat} (s : List UInt8) (hs : 0 ∉ s)
    (hw : s.length ≤ w) (hbytes : ∀ i, i < s.length → m (p + i) = s.getD i 0)
    (hzero : ∀ i, s.length ≤ i → i < w → m (p + i) = 0) : fieldString m p w = s := by
  have hload : load m p w = s ++ List.replicate (w - s.length) 0 := by
    apply ext_getElem (by simp; omega)
    intro i hi _
    rw [load_getElem]
    by_cases his : i < s.length
    · rw [hbytes i his, getElem_append_left his]
      simp [his]
    · rw [hzero i (by omega) (by simpa using hi), getElem_append_right (by omega)]
      simp
  have hall : ∀ b ∈ s, (b != 0) = true := by
    intro b hb
    have : b ≠ 0 := fun h => hs (h ▸ hb)
    simpa using this
  rw [fieldString, hload, takeWhile_append_of_pos hall]
  cases w - s.length <;> simp [replicate_succ]

theorem fieldString_store (m : Memory) (p w : Nat) (s : List UInt8) (hs : 0 ∉ s)
    (hw : s.length ≤ w) : fieldString (store (memset m p 0 w) p s) p w = s := by
  apply fieldString_of_bytes s hs hw
  · intro i hi
    rw [store_inside (by omega) (by omega), Nat.add_sub_cancel_left]
  · intro i hl hi
    rw [store_outside (by omega), memset_inside (by omega) (by omega)]

end AmlogicV901d.Lib.Strings
