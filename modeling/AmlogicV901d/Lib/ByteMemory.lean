import AmlogicV901d.Lib.LittleEndian

/-!
# Flat byte memory

A C buffer is a total map from byte offsets to bytes. `memset`, `memcpy` and
`store` are the block writes, `load` the block read; every frame fact is stated
for an arbitrary address outside the written interval, so callers discharge
disjointness by linear arithmetic only.
-/
namespace AmlogicV901d.Lib.ByteMemory
open LittleEndian

variable {m m' src : Memory} {p n a q : Nat} {bytes : List UInt8} {w : UInt32}

abbrev Memory := Nat → UInt8

def zeroed : Memory := fun _ => 0

def memset (m : Memory) (p : Nat) (c : UInt8) (n : Nat) : Memory :=
  fun a => if p ≤ a ∧ a < p + n then c else m a

def memcpy (m : Memory) (p : Nat) (src : Memory) (q n : Nat) : Memory :=
  fun a => if p ≤ a ∧ a < p + n then src (q + (a - p)) else m a

/-- Block write of a byte sequence, such as a string constant or an encoded word. -/
def store (m : Memory) (p : Nat) (bytes : List UInt8) : Memory :=
  fun a => if p ≤ a ∧ a < p + bytes.length then bytes.getD (a - p) 0 else m a

def load (m : Memory) : Nat → Nat → List UInt8
  | _, 0 => []
  | p, n + 1 => m p :: load m (p + 1) n

def loadU16 (m : Memory) (p : Nat) : UInt16 := UInt16.ofNat (leValue (load m p 2))

def loadU32 (m : Memory) (p : Nat) : UInt32 := UInt32.ofNat (leValue (load m p 4))

def storeU32 (m : Memory) (p : Nat) (w : UInt32) : Memory := store m p (leBytes 4 w.toNat)

def loadU64 (m : Memory) (p : Nat) : UInt64 := UInt64.ofNat (leValue (load m p 8))

/-- A fixed-size byte array field. -/
def loadVec (m : Memory) (p n : Nat) : Vector UInt8 n := Vector.ofFn fun i => m (p + i)

/-- A 32-bit word repeated over an interval, cut at its end. -/
def fillPattern (m : Memory) (p n : Nat) (w : UInt32) : Memory :=
  fun a => if p ≤ a ∧ a < p + n then (leBytes 4 w.toNat).getD ((a - p) % 4) 0 else m a

@[simp] theorem load_length (m : Memory) (p n : Nat) : (load m p n).length = n := by
  induction n generalizing p with
  | zero => rfl
  | succ n ih => simp [load, ih]

theorem load_getElem (m : Memory) (p n i : Nat) (h : i < (load m p n).length) : (load m p n)[i] = m (p + i) := by
  induction n generalizing p i with
  | zero => simp at h
  | succ n ih =>
    cases i with
    | zero => rfl
    | succ i =>
      simp only [load, List.getElem_cons_succ]
      rw [ih (p + 1) i]
      congr 1
      omega

theorem load_getD (m : Memory) (p n i : Nat) (h : i < n) (d : UInt8) : (load m p n).getD i d = m (p + i) := by
  have hi : i < (load m p n).length := by simpa using h
  rw [List.getD_eq_getElem?_getD, List.getElem?_eq_getElem hi, load_getElem]
  rfl

theorem load_congr (h : ∀ i, i < n → m' (p + i) = m (p + i)) : load m' p n = load m p n := by
  apply List.ext_getElem (by simp)
  intro i hi _
  rw [load_getElem, load_getElem]
  exact h i (by simpa using hi)

theorem load_add (m : Memory) (p a b : Nat) : load m p (a + b) = load m p a ++ load m (p + a) b := by
  induction a generalizing p with
  | zero => simp [load]
  | succ a ih =>
    rw [Nat.add_right_comm]
    simp only [load, List.cons_append, ih]
    congr 3
    omega

theorem loadU32_congr (h : ∀ i, i < 4 → m' (p + i) = m (p + i)) : loadU32 m' p = loadU32 m p := by
  rw [loadU32, loadU32, load_congr h]

theorem memset_outside {c : UInt8} (h : a < p ∨ p + n ≤ a) : memset m p c n a = m a := by
  have hn : ¬ (p ≤ a ∧ a < p + n) := by omega
  simp [memset, hn]

theorem memset_inside {c : UInt8} (hl : p ≤ a) (hu : a < p + n) : memset m p c n a = c := by
  simp [memset, hl, hu]

theorem memcpy_outside (h : a < p ∨ p + n ≤ a) : memcpy m p src q n a = m a := by
  have hn : ¬ (p ≤ a ∧ a < p + n) := by omega
  simp [memcpy, hn]

theorem memcpy_inside (hl : p ≤ a) (hu : a < p + n) : memcpy m p src q n a = src (q + (a - p)) := by
  simp [memcpy, hl, hu]

theorem memcpy_append (m src : Memory) (p q a b : Nat) :
    memcpy (memcpy m p src q a) (p + a) src (q + a) b = memcpy m p src q (a + b) := by
  funext x
  by_cases hb : p + a ≤ x ∧ x < p + a + b
  · rw [memcpy_inside hb.1 hb.2, memcpy_inside (by omega) (by omega)]
    congr 1
    omega
  rw [memcpy_outside (by omega)]
  by_cases ha : p ≤ x ∧ x < p + a
  · rw [memcpy_inside ha.1 ha.2, memcpy_inside ha.1 (by omega)]
  · rw [memcpy_outside (by omega), memcpy_outside (by omega)]

theorem memcpy_start (h : a < n) : memcpy m 0 src 0 n a = src a := by
  simp [memcpy, h]

theorem store_outside (h : a < p ∨ p + bytes.length ≤ a) : store m p bytes a = m a := by
  have hn : ¬ (p ≤ a ∧ a < p + bytes.length) := by omega
  simp [store, hn]

theorem store_inside (hl : p ≤ a) (hu : a < p + bytes.length) : store m p bytes a = bytes.getD (a - p) 0 := by
  simp [store, hl, hu]

theorem storeU32_outside (h : a < p ∨ p + 4 ≤ a) : storeU32 m p w a = m a :=
  store_outside (by simpa using h)

theorem load_store (m : Memory) (p : Nat) (bytes : List UInt8) : load (store m p bytes) p bytes.length = bytes := by
  apply List.ext_getElem (by simp)
  intro i hi hb
  rw [load_getElem, store_inside (by omega) (by omega), Nat.add_sub_cancel_left]
  simp [hb]

theorem store_append (m : Memory) (p : Nat) (a b : List UInt8) :
    store m p (a ++ b) = store (store m p a) (p + a.length) b := by
  funext x
  by_cases hb : p + a.length ≤ x ∧ x < p + a.length + b.length
  · rw [store_inside hb.1 hb.2, store_inside (by omega) (by simp; omega),
      List.getD_eq_getElem?_getD, List.getElem?_append_right (by omega),
      List.getD_eq_getElem?_getD]
    congr 2
    omega
  · have hfirst : store (store m p a) (p + a.length) b x = store m p a x :=
      store_outside (by omega)
    rw [hfirst]
    by_cases ha : p ≤ x ∧ x < p + a.length
    · rw [store_inside ha.1 ha.2, store_inside ha.1 (by simp; omega),
        List.getD_eq_getElem?_getD, List.getElem?_append_left (by omega),
        List.getD_eq_getElem?_getD]
    · rw [store_outside (by simp; omega), store_outside (by omega)]

theorem loadU64_congr (h : ∀ i, i < 8 → m' (p + i) = m (p + i)) : loadU64 m' p = loadU64 m p := by
  rw [loadU64, loadU64, load_congr h]

theorem load_front {a b : List UInt8} (h : load m p (a ++ b).length = a ++ b) : load m p a.length = a := by
  rw [List.length_append, load_add] at h
  exact (List.append_inj h (load_length m p a.length)).1

theorem load_behind {a b : List UInt8}
    (h : load m p (a ++ b).length = a ++ b) : load m (p + a.length) b.length = b := by
  rw [List.length_append, load_add] at h
  exact (List.append_inj h (load_length m p a.length)).2

theorem load_store_behind {a : List UInt8} (h : load m p a.length = a)
    (b : List UInt8) : load (store m (p + a.length) b) p (a ++ b).length = a ++ b := by
  have hfront : load (store m (p + a.length) b) p a.length = a :=
    (load_congr fun i hi => store_outside (.inl (by omega))).trans h
  rw [List.length_append, load_add, hfront, load_store]

theorem fillPattern_outside (h : a < p ∨ p + n ≤ a) : fillPattern m p n w a = m a := by
  have hn : ¬ (p ≤ a ∧ a < p + n) := by omega
  simp [fillPattern, hn]

theorem fillPattern_inside (hl : p ≤ a) (hu : a < p + n) :
    fillPattern m p n w a = (leBytes 4 w.toNat).getD ((a - p) % 4) 0 := by
  simp [fillPattern, hl, hu]

theorem memcpy_pattern {src : Memory} {q : Nat} (h : ∀ i, i < n → src (q + i) = (leBytes 4 w.toNat).getD (i % 4) 0) :
    memcpy m p src q n = fillPattern m p n w := by
  funext a
  by_cases ha : p ≤ a ∧ a < p + n
  · rw [memcpy_inside ha.1 ha.2, fillPattern_inside ha.1 ha.2, h (a - p) (by omega)]
  · rw [memcpy_outside (by omega), fillPattern_outside (by omega)]

theorem fillPattern_append (m : Memory) (p a b : Nat) (w : UInt32) (ha : a % 4 = 0) :
    fillPattern (fillPattern m p a w) (p + a) b w = fillPattern m p (a + b) w := by
  funext x
  by_cases hb : p + a ≤ x ∧ x < p + a + b
  · rw [fillPattern_inside hb.1 hb.2, fillPattern_inside (by omega) (by omega)]
    congr 1
    omega
  rw [fillPattern_outside (by omega)]
  by_cases hin : p ≤ x ∧ x < p + a
  · rw [fillPattern_inside hin.1 hin.2, fillPattern_inside hin.1 (by omega)]
  · rw [fillPattern_outside (by omega), fillPattern_outside (by omega)]

theorem loadVec_congr (h : ∀ i, i < n → m' (p + i) = m (p + i)) : loadVec m' p n = loadVec m p n := by
  apply Vector.ext
  intro i hi
  simp only [loadVec, Vector.getElem_ofFn]
  exact h i hi

theorem loadVec_of_load {v : Vector UInt8 n} (h : load m p n = v.toList) : loadVec m p n = v := by
  apply Vector.ext
  intro i hi
  simp only [loadVec, Vector.getElem_ofFn]
  rw [← load_getD m p n i hi 0, h]
  simp [hi]

theorem memcpy_eq_store (m src : Memory) (p q n : Nat) : memcpy m p src q n = store m p (load src q n) := by
  funext a
  by_cases ha : p ≤ a ∧ a < p + n
  · rw [memcpy_inside ha.1 ha.2, store_inside ha.1 (by simpa using ha.2), load_getD src q n (a - p) (by omega)]
  · rw [memcpy_outside (by omega), store_outside (by simp only [load_length]; omega)]

theorem memcpy_of_load (h : load src q bytes.length = bytes) : memcpy m p src q bytes.length = store m p bytes := by
  rw [memcpy_eq_store, h]

theorem memcpy_take (h : load src q bytes.length = bytes) (hn : n ≤ bytes.length) :
    memcpy m p src q n = store m p (bytes.take n) := by
  have htake : (bytes.take n).length = n := by rw [List.length_take, Nat.min_eq_left hn]
  have hload : load src q (bytes.take n).length = bytes.take n := by
    rw [← List.take_append_drop n bytes] at h
    exact load_front h
  rw [← memcpy_of_load hload, htake]

theorem load_take (m : Memory) (p n k : Nat) : (load m p n).take k = load m p (min k n) := by
  apply List.ext_getElem (by simp)
  intro i hi _
  rw [List.getElem_take, load_getElem, load_getElem]

theorem loadU32_storeU32 (m : Memory) (p : Nat) (w : UInt32) : loadU32 (storeU32 m p w) p = w := by
  have h := load_store m p (leBytes 4 w.toNat)
  rw [leBytes_length] at h
  rw [loadU32, storeU32, h]
  exact leValue_leBytes_u32 w

end AmlogicV901d.Lib.ByteMemory
