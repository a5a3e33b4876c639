import Mathlib.Algebra.Group.Nat.Defs
import Mathlib.Data.List.Basic

/-!
# Space — a 64-bit address space and the accesses made to it

Memory has a byte at every 64-bit address, and address arithmetic wraps around. A program over
it is a `Run`: it changes memory and leaves a trace of what it has read and written, or its
behaviour is undefined.

* `range_subset_iff`: when one range of addresses lies inside another.
* `load_congr`, `copy_apply_of_range`, `fill_apply_of_range` and their counterparts outside the
  range: what the operations do, byte by byte.
-/

namespace Space

/-- One byte per address. -/
abbrev Mem := UInt64 → UInt8

/-- The `n` addresses from `a` on. -/
def Range (a : UInt64) (n : Nat) (x : UInt64) : Prop := (x - a).toNat < n

instance (a : UInt64) (n : Nat) (x : UInt64) : Decidable (Range a n x) :=
  inferInstanceAs (Decidable ((x - a).toNat < n))

/-- The `n`-byte little-endian word at `a`. -/
def load (m : Mem) : (n : Nat) → (a : UInt64) → Nat
  | 0, _ => 0
  | n + 1, a => (m a).toNat + 256 * load m n (a + 1)

/-- `memcpy`; every byte is read before any is written. -/
def copy (m : Mem) (dst src : UInt64) (n : Nat) : Mem := fun x =>
  if Range dst n x then m (src + (x - dst)) else m x

/-- `memset`. -/
def fill (m : Mem) (a : UInt64) (b : UInt8) (n : Nat) : Mem := fun x =>
  if Range a n x then b else m x

/-- `n` bytes from `a` on are read or written. -/
inductive Access where
  | read (a : UInt64) (n : Nat)
  | write (a : UInt64) (n : Nat)
deriving DecidableEq, Repr

structure State where
  mem : Mem
  trace : List Access

/-- A program; `none` is undefined behaviour. -/
abbrev Run := StateT State Option

def word (n : Nat) (a : UInt64) : Run Nat := fun s =>
  some (load s.mem n a, { s with trace := s.trace ++ [.read a n] })

def memcpy (dst src : UInt64) (n : Nat) : Run Unit := fun s =>
  some ((), ⟨copy s.mem dst src n, s.trace ++ [.read src n, .write dst n]⟩)

def memset (a : UInt64) (b : UInt8) (n : Nat) : Run Unit := fun s =>
  some ((), ⟨fill s.mem a b n, s.trace ++ [.write a n]⟩)

def undefined {α : Type} : Run α := fun _ => none

/-! ## Running -/

section Run

variable {α : Type} (s : State)

theorem word_bind (n : Nat) (a : UInt64) (f : Nat → Run α) :
    (word n a >>= f) s = f (load s.mem n a) ⟨s.mem, s.trace ++ [.read a n]⟩ := rfl

theorem memcpy_bind (dst src : UInt64) (n : Nat) (f : Unit → Run α) :
    (memcpy dst src n >>= f) s =
      f () ⟨copy s.mem dst src n, s.trace ++ [.read src n, .write dst n]⟩ := rfl

theorem memset_eq (a : UInt64) (b : UInt8) (n : Nat) :
    memset a b n s = some ((), ⟨fill s.mem a b n, s.trace ++ [.write a n]⟩) := rfl

theorem pure_eq (x : α) : (pure x : Run α) s = some (x, s) := rfl

/-- The rest of a program, from what the first part has left. -/
theorem bind_of_eq {β : Type} {x : Run α} {s s' : State} {a : α} (h : x s = some (a, s'))
    (f : α → Run β) : (x >>= f) s = f a s' := by
  show (x s >>= fun p => f p.1 p.2) = f a s'
  rw [h]
  rfl

end Run

/-! ## Ranges -/

section Ranges

variable {a b x : UInt64} {n k : Nat}

theorem range_self (hn : 0 < n) : Range a n a := by
  show (a - a).toNat < n
  rw [UInt64.sub_self]
  exact hn

theorem range_add (hk : k < n) (hn : n ≤ 2 ^ 64) : Range a n (a + UInt64.ofNat k) := by
  show (a + UInt64.ofNat k - a).toNat < n
  rw [UInt64.add_comm, UInt64.add_sub_cancel, UInt64.toNat_ofNat', Nat.mod_eq_of_lt (by omega)]
  exact hk

theorem Range.mono (h : Range a n x) (hnk : n ≤ k) : Range a k x := Nat.lt_of_lt_of_le h hnk

/-- The offset from another start. -/
theorem toNat_sub_eq (a b x : UInt64) :
    (x - b).toNat = ((x - a).toNat + (a - b).toNat) % 2 ^ 64 := by
  have hsplit : x - b = (x - a) + (a - b) := by grind
  rw [hsplit, UInt64.toNat_add]

theorem toNat_add_sub (a b d : UInt64) :
    (a + d - b).toNat = ((a - b).toNat + d.toNat) % 2 ^ 64 := by
  have hsplit : a + d - b = (a - b) + d := by grind
  rw [hsplit, UInt64.toNat_add]

/-- A range lies inside another one exactly if it is empty, or starts there and ends before
the other one does without wrapping around. -/
theorem range_subset_iff (hn : n ≤ 2 ^ 64) (hk : k < 2 ^ 64) :
    (∀ x, Range a n x → Range b k x) ↔ n = 0 ∨ (a - b).toNat + n ≤ k := by
  have hoff : (a - b).toNat < 2 ^ 64 := (a - b).toNat_lt
  constructor
  · intro hsub
    by_contra hnot
    -- the last address, or the one before `b` if the range wraps around
    have hfirst : (a - b).toNat < k := hsub a (range_self (by omega))
    generalize hj : min (n - 1) (2 ^ 64 - 1 - (a - b).toNat) = j
    have hlast := hsub (a + UInt64.ofNat j) (range_add (by omega) hn)
    have hcancel : a + UInt64.ofNat j - a = UInt64.ofNat j := by
      rw [UInt64.add_comm, UInt64.add_sub_cancel]
    rw [Range, toNat_sub_eq a b, hcancel, UInt64.toNat_ofNat'] at hlast
    omega
  · rintro (rfl | hle) x hx
    · exact absurd hx (Nat.not_lt_zero _)
    · have hx' : (x - a).toNat < n := hx
      rw [Range, toNat_sub_eq a b]
      omega

/-- Addresses of a range, one by one. -/
theorem range_iff_exists (hn : n ≤ 2 ^ 64) :
    Range a n x ↔ ∃ j < n, x = a + UInt64.ofNat j := by
  constructor
  · intro hx
    refine ⟨(x - a).toNat, hx, ?_⟩
    rw [UInt64.ofNat_toNat, UInt64.add_comm, UInt64.sub_add_cancel]
  · rintro ⟨j, hj, rfl⟩
    exact range_add hj hn

/-- A range that does not wrap around is an interval. -/
theorem range_iff_of_le (h : a.toNat + n ≤ 2 ^ 64) :
    Range a n x ↔ a.toNat ≤ x.toNat ∧ x.toNat < a.toNat + n := by
  have hx : x.toNat < 2 ^ 64 := x.toNat_lt
  have ha : a.toNat < 2 ^ 64 := a.toNat_lt
  unfold Range
  rw [UInt64.toNat_sub]
  omega

/-- The end of a range, behind its first addresses. -/
theorem range_rest_iff {d : UInt64} (hd : d.toNat ≤ k) (hk : k < 2 ^ 64) :
    Range (a + d) (k - d.toNat) x ↔ d.toNat ≤ (x - a).toNat ∧ Range a k x := by
  have hsplit : x - (a + d) = (x - a) - d := by grind
  have hx : (x - a).toNat < 2 ^ 64 := (x - a).toNat_lt
  have hd' : d.toNat < 2 ^ 64 := d.toNat_lt
  unfold Range
  rw [hsplit, UInt64.toNat_sub]
  omega

end Ranges

/-! ## Bytes -/

section Bytes

variable {m m' : Mem} {a src x : UInt64} {n : Nat}

theorem copy_apply_of_range (h : Range a n x) : copy m a src n x = m (src + (x - a)) := if_pos h

theorem copy_apply_of_not_range (h : ¬ Range a n x) : copy m a src n x = m x := if_neg h

theorem fill_apply_of_range {b : UInt8} (h : Range a n x) : fill m a b n x = b := if_pos h

theorem fill_apply_of_not_range {b : UInt8} (h : ¬ Range a n x) : fill m a b n x = m x := if_neg h

/-- A load reads the bytes of its word only. -/
theorem load_congr (hn : n ≤ 2 ^ 64) (h : ∀ x, Range a n x → m x = m' x) :
    load m n a = load m' n a := by
  induction n generalizing a with
  | zero => rfl
  | succ n ih =>
      have hhead : m a = m' a := h a (range_self (Nat.succ_pos n))
      have htail : load m n (a + 1) = load m' n (a + 1) := by
        refine ih (by omega) ?_
        intro x hx
        refine h x ?_
        rcases (range_iff_exists (by omega)).mp hx with ⟨j, hj, rfl⟩
        refine (range_iff_exists hn).mpr ⟨j + 1, by omega, ?_⟩
        rw [UInt64.ofNat_add, UInt64.add_assoc, UInt64.add_comm 1]
        rfl
      rw [load, load, hhead, htail]

theorem load_lt (m : Mem) (n : Nat) (a : UInt64) : load m n a < 256 ^ n := by
  induction n generalizing a with
  | zero => exact Nat.one_pos
  | succ n ih =>
      have hbyte : (m a).toNat < 256 := (m a).toNat_lt
      have htail := ih (a + 1)
      rw [load, Nat.pow_succ]
      omega

end Bytes

end Space
