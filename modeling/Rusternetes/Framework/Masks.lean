import Mathlib

/-! # Masks

    Bit operations on numbers that are split at a bit: the bits from `h` on stand for a
    multiple of `2 ^ h`, those below for the rest. Masking, filling and shifting are
    then division, addition and multiplication.
-/

open Nat

namespace Framework.Masks

/-- The bits from `h` up to `n`. -/
theorem testBit_two_pow_sub {n h : Nat} (hle : h ≤ n) (i : Nat) :
    (2 ^ n - 2 ^ h).testBit i = (decide (h ≤ i) && decide (i < n)) := by
  have hsplit : 2 ^ n - 2 ^ h = (2 ^ (n - h) - 1) <<< h := by
    rw [Nat.shiftLeft_eq, Nat.sub_mul, ← Nat.pow_add, Nat.sub_add_cancel hle, Nat.one_mul]
  rw [hsplit, testBit_shiftLeft, testBit_two_pow_sub_one]
  by_cases hi : h ≤ i
  · have hiff : i - h < n - h ↔ i < n := by omega
    simp [hi, hiff]
  · simp [hi]

theorem testBit_div_mul (a h i : Nat) :
    (a / 2 ^ h * 2 ^ h).testBit i = (decide (h ≤ i) && a.testBit i) := by
  rw [← shiftRight_eq_div_pow, ← shiftLeft_eq, testBit_shiftLeft,
    testBit_shiftRight]
  by_cases hi : h ≤ i
  · simp [hi, Nat.add_sub_cancel' hi]
  · simp [hi]

/-- **Masking** the bits below `h` away. -/
theorem and_two_pow_sub {a n h : Nat} (ha : a < 2 ^ n) (hle : h ≤ n) :
    a &&& (2 ^ n - 2 ^ h) = a / 2 ^ h * 2 ^ h := by
  apply eq_of_testBit_eq
  intro i
  rw [testBit_and, testBit_two_pow_sub hle, testBit_div_mul]
  by_cases hi : i < n
  · simp [hi, Bool.and_comm]
  · have hout : a.testBit i = false :=
      Nat.testBit_lt_two_pow (ha.trans_le (Nat.pow_le_pow_right (by omega) (Nat.le_of_not_lt hi)))
    simp [hout]

/-- **Filling** the bits below `h`, which are free. -/
theorem or_of_dvd {a r h : Nat} (ha : 2 ^ h ∣ a) (hr : r < 2 ^ h) : a ||| r = a + r := by
  obtain ⟨q, rfl⟩ := ha
  exact (two_pow_add_eq_or_of_lt hr q).symm

/-- **Comparing**: two numbers that agree from `h` on differ in the rest. -/
theorem xor_add_of_dvd {a r h : Nat} (ha : 2 ^ h ∣ a) (hr : r < 2 ^ h) : a ^^^ (a + r) = r := by
  rw [← or_of_dvd ha hr]
  apply eq_of_testBit_eq
  intro i
  by_cases hi : h ≤ i
  · have hout : r.testBit i = false :=
      Nat.testBit_lt_two_pow (hr.trans_le (Nat.pow_le_pow_right (by omega) hi))
    simp [hout]
  · obtain ⟨q, rfl⟩ := ha
    have hout : (2 ^ h * q).testBit i = false := by
      rw [testBit_two_pow_mul]
      simp [hi]
    simp [hout]

/-- **Cutting off** the bits from `h` on. -/
theorem and_two_pow_sub_one {r h n : Nat} (hr : r < 2 ^ h) (hle : h ≤ n) :
    (2 ^ n - 2 ^ h + r) &&& (2 ^ h - 1) = r := by
  obtain ⟨q, hq⟩ := dvd_sub (pow_dvd_pow 2 hle) (dvd_refl (2 ^ h))
  rw [and_two_pow_sub_one_eq_mod, hq, mul_add_mod, mod_eq_of_lt hr]

/-! ### Two splits -/

section nested

variable {h k : Nat} (hle : h ≤ k)

include hle

/-- A split at `k` after one at `h`. -/
theorem div_div (x : Nat) : x / 2 ^ h / 2 ^ (k - h) = x / 2 ^ k := by
  rw [Nat.div_div_eq_div_mul, ← Nat.pow_add, Nat.add_sub_cancel' hle]

theorem mul_div_of_le (q : Nat) : q * 2 ^ h / 2 ^ k = q / 2 ^ (k - h) := by
  rw [← div_div hle, Nat.mul_div_cancel _ (Nat.two_pow_pos h)]

theorem mul_div_of_ge (q : Nat) : q * 2 ^ k / 2 ^ h = q * 2 ^ (k - h) := by
  have hsplit : q * 2 ^ k = q * 2 ^ (k - h) * 2 ^ h := by
    rw [Nat.mul_assoc, ← Nat.pow_add, Nat.sub_add_cancel hle]
  rw [hsplit, Nat.mul_div_cancel _ (Nat.two_pow_pos h)]

/-- What is cleared below `h` is not seen from `k` on. -/
theorem div_mul_div (x : Nat) : x / 2 ^ h * 2 ^ h / 2 ^ k = x / 2 ^ k := by
  rw [mul_div_of_le hle, div_div hle]

/-- Numbers with the same bits from `h` on need the same width. -/
theorem lt_of_div_eq {x a : Nat} (ha : a < 2 ^ k) (heq : x / 2 ^ h = a / 2 ^ h) : x < 2 ^ k := by
  have hsplit : 2 ^ k = 2 ^ (k - h) * 2 ^ h := by
    rw [← Nat.pow_add, Nat.sub_add_cancel hle]
  rw [hsplit] at ha ⊢
  rw [← Nat.div_lt_iff_lt_mul (Nat.two_pow_pos h)] at ha ⊢
  rw [heq]
  exact ha

end nested

/-- The numbers with the same bits from `h` on. -/
theorem div_eq_iff (x q h : Nat) : x / 2 ^ h = q ↔ q * 2 ^ h ≤ x ∧ x ≤ q * 2 ^ h + (2 ^ h - 1) := by
  have hpos := Nat.two_pow_pos h
  rw [Nat.div_eq_iff hpos]
  omega

/-- A range meets the numbers with the bits `j` from `k` on exactly if `j` is between the
    bits of its ends. -/
theorem exists_between_iff {first last : Nat} (hle : first ≤ last) (k j : Nat) :
    (∃ x, first ≤ x ∧ x ≤ last ∧ x / 2 ^ k = j) ↔ first / 2 ^ k ≤ j ∧ j ≤ last / 2 ^ k := by
  constructor
  · intro ⟨x, hfirst, hlast, hx⟩
    rw [← hx]
    exact ⟨Nat.div_le_div_right hfirst, Nat.div_le_div_right hlast⟩
  · intro ⟨hfirst, hlast⟩
    by_cases hj : first ≤ j * 2 ^ k
    · refine ⟨j * 2 ^ k, hj, ?_, Nat.mul_div_cancel _ (Nat.two_pow_pos k)⟩
      exact (Nat.le_div_iff_mul_le (Nat.two_pow_pos k)).mp hlast
    · -- the first number itself
      have hlt : first / 2 ^ k ≤ j := hfirst
      have hge : j ≤ first / 2 ^ k :=
        (Nat.le_div_iff_mul_le (Nat.two_pow_pos k)).mpr (Nat.le_of_lt (Nat.lt_of_not_le hj))
      exact ⟨first, le_rfl, hle, le_antisymm hlt hge⟩

end Framework.Masks
