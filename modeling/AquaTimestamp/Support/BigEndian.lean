import Mathlib.Algebra.Order.Ring.Nat
import Mathlib.Data.Nat.Basic
import Mathlib.Tactic.Common

/-!
# Big-endian keys

Numbers written as a fixed number of bytes, most significant first.  For
numbers that fit, the byte order of the keys is the order of the numbers.
-/

namespace AquaTimestamp.Support.BigEndian

/-- The last `k` bytes of `n`, most significant first. -/
def bytes : Nat → Nat → List UInt8
  | 0, _ => []
  | k + 1, n => UInt8.ofNat (n / 256 ^ k) :: bytes k n

@[simp]
theorem length_bytes (k n : Nat) : (bytes k n).length = k := by
  induction k with
  | zero => rfl
  | succ k ih => rw [bytes, List.length_cons, ih]

/-- Higher digits do not show. -/
theorem bytes_mod {k j : Nat} (h : k ≤ j) (n : Nat) :
    bytes k (n % 256 ^ j) = bytes k n := by
  induction k with
  | zero => rfl
  | succ k ih =>
      rw [bytes, bytes, ih (by omega)]
      congr 1
      obtain ⟨c, rfl⟩ : ∃ c, j = k + (c + 1) := ⟨j - k - 1, by omega⟩
      rw [pow_add, Nat.mod_mul_right_div_self, pow_succ]
      apply UInt8.toNat_inj.mp
      rw [UInt8.toNat_ofNat', UInt8.toNat_ofNat']
      exact Nat.mod_mod_of_dvd _ (Dvd.intro_left _ rfl)

/-- Numbers are compared by their higher digits first. -/
theorem compare_div_mod (b n m : Nat) :
    compare n m = (compare (n / b) (m / b)).then (compare (n % b) (m % b)) := by
  have hn := Nat.div_add_mod n b
  have hm := Nat.div_add_mod m b
  rcases Nat.lt_trichotomy (n / b) (m / b) with hlt | heq | hgt
  · rw [Nat.compare_eq_lt.mpr hlt]
    exact Nat.compare_eq_lt.mpr (Nat.lt_of_div_lt_div hlt)
  · rw [heq] at hn
    rw [heq, Nat.compare_eq_eq.mpr rfl, Ordering.eq_then]
    rcases Nat.lt_trichotomy (n % b) (m % b) with h | h | h
    · rw [Nat.compare_eq_lt.mpr h]
      exact Nat.compare_eq_lt.mpr (by omega)
    · rw [Nat.compare_eq_eq.mpr h]
      exact Nat.compare_eq_eq.mpr (by omega)
    · rw [Nat.compare_eq_gt.mpr h]
      exact Nat.compare_eq_gt.mpr (by omega)
  · rw [Nat.compare_eq_gt.mpr hgt]
    exact Nat.compare_eq_gt.mpr (Nat.lt_of_div_lt_div hgt)

theorem compare_toNat (a b : UInt8) : compare a b = compare a.toNat b.toNat := by
  show compareOfLessAndEq a b = compareOfLessAndEq a.toNat b.toNat
  simp only [compareOfLessAndEq, UInt8.lt_iff_toNat_lt, UInt8.toNat_inj]

/-- The byte order of keys is the order of the numbers. -/
theorem compare_bytes {k n m : Nat} (hn : n < 256 ^ k) (hm : m < 256 ^ k) :
    compare (bytes k n) (bytes k m) = compare n m := by
  induction k generalizing n m with
  | zero =>
      obtain rfl : n = 0 := by simpa using hn
      obtain rfl : m = 0 := by simpa using hm
      rfl
  | succ k ih =>
      have hpos : 0 < 256 ^ k := Nat.pos_of_ne_zero (by simp)
      have htail := ih (Nat.mod_lt n hpos) (Nat.mod_lt m hpos)
      rw [bytes_mod (le_refl k), bytes_mod (le_refl k)] at htail
      rw [bytes, bytes, compare_div_mod (256 ^ k), List.compare_eq_compareLex,
        List.compareLex_cons_cons, ← List.compare_eq_compareLex, htail]
      congr 1
      rw [pow_succ] at hn hm
      have hhead : ∀ x, x < 256 ^ k * 256 →
          (UInt8.ofNat (x / 256 ^ k)).toNat = x / 256 ^ k := by
        intro x hx
        rw [UInt8.toNat_ofNat']
        exact Nat.mod_eq_of_lt (Nat.div_lt_of_lt_mul hx)
      rw [compare_toNat, hhead n hn, hhead m hm]

theorem bytes_injective {k n m : Nat} (hn : n < 256 ^ k) (hm : m < 256 ^ k)
    (h : bytes k n = bytes k m) : n = m := by
  have hcompare := compare_bytes hn hm
  rw [h, Std.ReflOrd.compare_self] at hcompare
  exact Nat.compare_eq_eq.mp hcompare.symm

/-- A key starts with the bytes of its own number only. -/
theorem bytes_isPrefixOf {k n m : Nat} (hn : n < 256 ^ k) (hm : m < 256 ^ k)
    (rest : List UInt8) :
    (bytes k n).isPrefixOf (bytes k m ++ rest) = true ↔ n = m := by
  rw [List.isPrefixOf_iff_prefix]
  constructor
  · intro h
    refine bytes_injective hn hm ?_
    have htake := List.prefix_iff_eq_take.mp h
    simpa using htake
  · rintro rfl
    exact List.prefix_append _ _

end AquaTimestamp.Support.BigEndian
