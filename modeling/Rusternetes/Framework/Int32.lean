import Mathlib

/-! # Machine Integers Read as Integers

    Arithmetic on `Int32` wraps around. A word is read as an integer by `toInt`, which
    keeps the order; it goes through a sum up to a multiple of `2 ^ 32`, and through any
    operation whose exact result is in range.
-/

namespace Framework.I32

open List

/-- An integer that an `Int32` can hold. -/
def Fits (n : Int) : Prop := -2 ^ 31 ≤ n ∧ n < 2 ^ 31

instance (n : Int) : Decidable (Fits n) := inferInstanceAs (Decidable (_ ∧ _))

theorem fits_toInt (a : Int32) : Fits a.toInt := ⟨a.le_toInt, a.toInt_lt⟩

theorem bmod_eq_self {n : Int} (h : Fits n) : n.bmod (2 ^ 32) = n := by
  obtain ⟨hlow, hhigh⟩ := h
  rw [Int.bmod_def]
  omega

@[simp] theorem toInt_min (a b : Int32) : (min a b).toInt = min a.toInt b.toInt := by
  show (if a ≤ b then a else b).toInt = _
  split_ifs with h
  · exact (min_eq_left (Int32.le_iff_toInt_le.mp h)).symm
  · exact (min_eq_right (not_le.mp (mt Int32.le_iff_toInt_le.mpr h)).le).symm

@[simp] theorem toInt_max (a b : Int32) : (max a b).toInt = max a.toInt b.toInt := by
  show (if a ≤ b then b else a).toInt = _
  split_ifs with h
  · exact (max_eq_right (Int32.le_iff_toInt_le.mp h)).symm
  · exact (max_eq_left (not_le.mp (mt Int32.le_iff_toInt_le.mpr h)).le).symm

theorem toInt_add_of_fits {a b : Int32} (h : Fits (a.toInt + b.toInt)) :
    (a + b).toInt = a.toInt + b.toInt := by
  rw [Int32.toInt_add, bmod_eq_self h]

theorem toInt_sub_of_fits {a b : Int32} (h : Fits (a.toInt - b.toInt)) :
    (a - b).toInt = a.toInt - b.toInt := by
  rw [Int32.toInt_sub, bmod_eq_self h]

/-- **A sum of words is the sum of their values, up to the wrap.** -/
theorem toInt_sum (l : List Int32) : l.sum.toInt = (l.map Int32.toInt).sum.bmod (2 ^ 32) := by
  induction l with
  | nil => rfl
  | cons a l ih => rw [sum_cons, map_cons, sum_cons, Int32.toInt_add, ih, Int.add_bmod_bmod]

end Framework.I32
