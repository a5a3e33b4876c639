import Mathlib.Data.Nat.ModEq
import Mathlib.Tactic.Ring

/-!
# Memory — byte-addressed memory with little-endian words

Memory is a total map from addresses to bytes. `load` and `store` read and
write an `n`-byte word, least significant byte first; `fill` is `memset`, `copy`
is `memcpy` into memory and `bytes` is what `memcpy` takes out of it.
The two facts every client uses are `load_store_self` (a word reads back)
and `load_store_of_disjoint` (a store outside the word leaves it alone); both
come from the bytewise description `store_apply_of_mem`,
`store_apply_of_notMem`. `add64` and `sub64` are the wrapping operations of a
64-bit unsigned type on such words.
-/

namespace Memory

/-- The contents of memory: one byte per address. -/
abbrev Mem := Nat → UInt8

/-- The `n`-byte little-endian word at address `a`. -/
def load (m : Mem) : (n a : Nat) → Nat
  | 0, _ => 0
  | n + 1, a => (m a).toNat + 256 * load m n (a + 1)

/-- Write the low `n` bytes of `v` at address `a`. -/
def store (m : Mem) (n a v : Nat) : Mem := fun x =>
  if a ≤ x ∧ x < a + n then UInt8.ofNat (v / 256 ^ (x - a)) else m x

/-- Set `n` bytes from address `a` to `b`. -/
def fill (m : Mem) (n a : Nat) (b : UInt8) : Mem := fun x =>
  if a ≤ x ∧ x < a + n then b else m x

/-- Copy `n` bytes of `f` to address `a`. -/
def copy (m : Mem) (n a : Nat) (f : Nat → UInt8) : Mem := fun x =>
  if a ≤ x ∧ x < a + n then f (x - a) else m x

/-- The `n` bytes from address `a` on. -/
def bytes (m : Mem) (n a : Nat) : List UInt8 := (List.range n).map fun i => m (a + i)

/-- Unsigned 64-bit addition. -/
def add64 (a b : Nat) : Nat := (a + b) % 2 ^ 64

/-- Unsigned 64-bit subtraction. -/
def sub64 (a b : Nat) : Nat := (a + 2 ^ 64 - b) % 2 ^ 64

theorem add64_of_lt {a b : Nat} (h : a + b < 2 ^ 64) : add64 a b = a + b :=
  Nat.mod_eq_of_lt h

theorem sub64_of_le {a b : Nat} (hab : b ≤ a) (ha : a < 2 ^ 64) :
    sub64 a b = a - b := by
  unfold sub64
  omega

/-! ## Bytes after a write -/

theorem store_apply_of_mem (m : Mem) {n a v x : Nat} (h : a ≤ x ∧ x < a + n) :
    store m n a v x = UInt8.ofNat (v / 256 ^ (x - a)) := by
  simp [store, h]

theorem store_apply_of_notMem (m : Mem) {n a v x : Nat}
    (h : x < a ∨ a + n ≤ x) : store m n a v x = m x := by
  have hx : ¬ (a ≤ x ∧ x < a + n) := by omega
  simp [store, hx]

theorem fill_apply_of_mem (m : Mem) {n a x : Nat} {b : UInt8} (h : a ≤ x ∧ x < a + n) :
    fill m n a b x = b := by
  simp [fill, h]

theorem fill_apply_of_notMem (m : Mem) {n a x : Nat} {b : UInt8}
    (h : x < a ∨ a + n ≤ x) : fill m n a b x = m x := by
  have hx : ¬ (a ≤ x ∧ x < a + n) := by omega
  simp [fill, hx]

theorem copy_apply_of_mem (m : Mem) {n a x : Nat} (f : Nat → UInt8) (h : a ≤ x ∧ x < a + n) :
    copy m n a f x = f (x - a) := by
  simp [copy, h]

theorem copy_apply_of_notMem (m : Mem) {n a x : Nat} (f : Nat → UInt8)
    (h : x < a ∨ a + n ≤ x) : copy m n a f x = m x := by
  have hx : ¬ (a ≤ x ∧ x < a + n) := by omega
  simp [copy, hx]

/-! ## Blocks of bytes -/

theorem length_bytes (m : Mem) (n a : Nat) : (bytes m n a).length = n := by
  simp [bytes]

theorem bytes_succ (m : Mem) (n a : Nat) : bytes m (n + 1) a = m a :: bytes m n (a + 1) := by
  rw [bytes, List.range_succ_eq_map, List.map_cons, List.map_map]
  congr 1
  refine List.map_congr_left ?_
  intro i _
  exact congrArg m (by omega)

theorem take_bytes (m : Mem) {k n : Nat} (h : k ≤ n) (a : Nat) :
    (bytes m n a).take k = bytes m k a := by
  rw [bytes, ← List.map_take, List.take_range, Nat.min_eq_left h, bytes]

/-! ## Loads -/

/-- A load reads only the bytes of its word. -/
theorem load_congr {m m' : Mem} {n a : Nat}
    (h : ∀ x, a ≤ x → x < a + n → m x = m' x) : load m n a = load m' n a := by
  induction n generalizing a with
  | zero => rfl
  | succ n ih =>
      have hhead : m a = m' a := h a (Nat.le_refl a) (by omega)
      have htail : load m n (a + 1) = load m' n (a + 1) :=
        ih fun x hx hx' => h x (by omega) (by omega)
      simp only [load, hhead, htail]

theorem load_eq_zero {m : Mem} {n a : Nat} (h : ∀ x, a ≤ x → x < a + n → m x = 0) :
    load m n a = 0 := by
  induction n generalizing a with
  | zero => rfl
  | succ n ih =>
      have hhead : m a = 0 := h a (Nat.le_refl a) (by omega)
      have htail : load m n (a + 1) = 0 := ih fun x hx hx' => h x (by omega) (by omega)
      rw [load, hhead, htail]
      rfl

theorem load_lt (m : Mem) (n a : Nat) : load m n a < 256 ^ n := by
  induction n generalizing a with
  | zero => simp [load]
  | succ n ih =>
      have hbyte : (m a).toNat < 256 := (m a).toNat_lt
      have htail := ih (a + 1)
      simp only [load, pow_succ]
      omega

/-- Equal words are equal byte by byte. -/
theorem load_eq_iff {m m' : Mem} {n a : Nat} :
    load m n a = load m' n a ↔ ∀ x, a ≤ x → x < a + n → m x = m' x := by
  constructor
  · intro h
    induction n generalizing a with
    | zero =>
        intro x hx hx'
        omega
    | succ n ih =>
        have hbyte : (m a).toNat < 256 := (m a).toNat_lt
        have hbyte' : (m' a).toNat < 256 := (m' a).toNat_lt
        simp only [load] at h
        have hrest := ih (a := a + 1) (by omega)
        intro x hx hx'
        rcases Nat.eq_or_lt_of_le hx with rfl | hlt
        · exact UInt8.toNat_inj.mp (by omega)
        · exact hrest x hlt (by omega)
  · exact load_congr

/-- A word is its low part and, above it, its high part. -/
theorem load_add (m : Mem) (j k a : Nat) :
    load m (j + k) a = load m j a + 256 ^ j * load m k (a + j) := by
  induction j generalizing a with
  | zero => simp [load]
  | succ j ih =>
      have hstart : a + 1 + j = a + (j + 1) := by omega
      rw [Nat.succ_add, load, load, ih, hstart, pow_succ]
      ring

/-- A word that was just written reads back, cut to its width. -/
theorem load_store_mod (m : Mem) (n a v : Nat) :
    load (store m n a v) n a = v % 256 ^ n := by
  induction n generalizing a v with
  | zero => simp [load, Nat.mod_one]
  | succ n ih =>
      -- the bytes above the first are the word `v / 256` at `a + 1`
      have htail : load (store m (n + 1) a v) n (a + 1) =
          load (store m n (a + 1) (v / 256)) n (a + 1) := by
        apply load_congr
        intro x hx hx'
        rw [store_apply_of_mem m (by omega), store_apply_of_mem m (by omega)]
        have hpow : 256 ^ (x - a) = 256 * 256 ^ (x - (a + 1)) := by
          rw [← pow_succ']
          congr 1
          omega
        rw [hpow, Nat.div_div_eq_div_mul]
      have hhead : (store m (n + 1) a v a).toNat = v % 256 := by
        rw [store_apply_of_mem m (by omega)]
        simp
      rw [load, htail, hhead, ih, pow_succ', Nat.mod_mul]

theorem load_store_self (m : Mem) {n a v : Nat} (h : v < 256 ^ n) :
    load (store m n a v) n a = v := by
  rw [load_store_mod, Nat.mod_eq_of_lt h]

/-- Frame: a store that misses the word. -/
theorem load_store_of_disjoint (m : Mem) {n a k b v : Nat}
    (h : a + n ≤ b ∨ b + k ≤ a) : load (store m k b v) n a = load m n a := by
  apply load_congr
  intro x hx hx'
  exact store_apply_of_notMem m (by omega)

end Memory
