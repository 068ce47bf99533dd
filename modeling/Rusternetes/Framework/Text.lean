import Mathlib

/-! # Text

    The string functions that path and name matching is made of, read through
    `String.toList` so that they compute in proofs, and what each of them
    answers in terms of `++`.
-/

open List

namespace Framework.Text

/-! ### Prefixes and suffixes -/

/-- Whether `s` begins with `p`. -/
def starts_with (s p : String) : Bool := p.toList.isPrefixOf s.toList

/-- What follows the beginning `p` of `s`. -/
def strip_prefix (s p : String) : Option String := (s.toList.dropPrefix? p.toList).map String.ofList

/-- What stands before the end `p` of `s`. -/
def strip_suffix (s p : String) : Option String := (s.toList.dropSuffix? p.toList).map String.ofList

/-- Whether the last character of `s` is `c`. -/
def ends_with (s : String) (c : Char) : Bool := s.toList.getLast? == some c

/-- `s` without the `c`s at its end. -/
def trim_end_matches (s : String) (c : Char) : String := String.ofList (s.toList.rdropWhile (· == c))

/-- The parts of `s` before and after the first `c`. -/
def split_once (s : String) (c : Char) : Option (String × String) :=
  match s.toList.dropWhile (· != c) with
  | [] => none
  | _ :: rest => some (String.ofList (s.toList.takeWhile (· != c)), String.ofList rest)

/-- The parts of `s` between the occurrences of `c`. -/
def split (s : String) (c : Char) : List String := (s.toList.splitOn c).map String.ofList

/-- Whether `p` occurs in `s`. -/
def contains (s p : String) : Bool := s.toList.tails.any fun t => p.toList.isPrefixOf t

/-- The number a text of decimal digits stands for. -/
def parse_digits (digits : List Char) : Option Nat :=
  if digits ≠ [] ∧ digits.all Char.isDigit then some (Nat.ofDigitChars 10 digits 0) else none

/-- The 64-bit integer a text stands for, with or without a sign. -/
def parse_i64 (s : String) : Option Int :=
  match s.toList with
  | '-' :: digits => (parse_digits digits).bind fun n => if n ≤ 2 ^ 63 then some (-n) else none
  | '+' :: digits => (parse_digits digits).bind fun n => if n < 2 ^ 63 then some n else none
  | digits => (parse_digits digits).bind fun n => if n < 2 ^ 63 then some n else none

variable {p s : String}

theorem starts_with_iff : starts_with s p = true ↔ ∃ rest, s = p ++ rest := by
  unfold starts_with
  rw [List.isPrefixOf_iff_prefix]
  constructor
  · rintro ⟨rest, hrest⟩
    refine ⟨String.ofList rest, ?_⟩
    rw [← String.toList_inj, String.toList_append, String.toList_ofList, hrest]
  · rintro ⟨rest, rfl⟩
    rw [String.toList_append]
    exact prefix_append _ _

theorem strip_prefix_eq_some {r : String} : strip_prefix s p = some r ↔ s = p ++ r := by
  unfold strip_prefix
  rw [Option.map_eq_some_iff]
  constructor
  · rintro ⟨rest, hdrop, rfl⟩
    obtain ⟨p', hsplit, hp'⟩ := dropPrefix?_eq_some_iff.mp hdrop
    rw [← String.toList_inj, String.toList_append, String.toList_ofList, hsplit, eq_of_beq hp']
  · rintro rfl
    refine ⟨r.toList, ?_, String.ofList_toList⟩
    exact dropPrefix?_eq_some_iff.mpr ⟨p.toList, String.toList_append, beq_self_eq_true _⟩

variable {a : String}

/-- A text that begins otherwise is not stripped. -/
theorem strip_prefix_append_of_not (rest : String) (h : ¬ p.toList <+: a.toList)
    (h' : ¬ a.toList <+: p.toList) : strip_prefix (a ++ rest) p = none := by
  cases hstrip : strip_prefix (a ++ rest) p with
  | none => rfl
  | some r =>
    have heq := congrArg String.toList (strip_prefix_eq_some.mp hstrip)
    rw [String.toList_append, String.toList_append] at heq
    have ha : a.toList <+: p.toList ++ r.toList := ⟨rest.toList, heq⟩
    rcases prefix_or_prefix_of_prefix ha (prefix_append _ _) with hap | hpa
    · exact absurd hap h'
    · exact absurd hpa h

/-! ### Splitting -/

variable {c : Char}

/-- The part before a `c` that is the first one, and the part after it. -/
theorem split_once_append {b : String} (h : c ∉ a.toList) :
    split_once (a ++ String.ofList [c] ++ b) c = some (a, b) := by
  have hall : ∀ x ∈ a.toList, (x != c) = true := by
    intro x hx
    rw [bne_iff_ne]
    rintro rfl
    exact h hx
  have hchars : (a ++ String.ofList [c] ++ b).toList = a.toList ++ (c :: b.toList) := by simp
  have hdrop : (a.toList ++ (c :: b.toList)).dropWhile (· != c) = c :: b.toList := by
    rw [dropWhile_append_of_pos hall, dropWhile_cons_of_neg (by simp)]
  have htake : (a.toList ++ (c :: b.toList)).takeWhile (· != c) = a.toList := by
    rw [takeWhile_append_of_pos hall, takeWhile_cons_of_neg (by simp), append_nil]
  unfold split_once
  rw [hchars, hdrop, htake]
  simp

theorem eq_of_split_once {b : String} (h : split_once s c = some (a, b)) :
    s = a ++ String.ofList [c] ++ b := by
  unfold split_once at h
  have hsplit := takeWhile_append_dropWhile (p := (· != c)) (l := s.toList)
  split at h
  · cases h
  · next x rest hd =>
    cases h
    rw [hd] at hsplit
    -- what stops `dropWhile` is the character itself
    have hx : x = c := by
      have hnot := head?_dropWhile_not (· != c) s.toList
      rw [hd] at hnot
      simpa using hnot
    rw [hx] at hsplit
    rw [← String.toList_inj]
    simpa using hsplit.symm

/-! ### Decimal texts -/

theorem ofDigitChars_toString (n : Nat) : Nat.ofDigitChars 10 (toString n).toList 0 = n := by
  rw [Nat.toString_eq_ofList_toDigits, String.toList_ofList]
  exact Nat.ofDigitChars_toDigits (by omega) (by omega)

variable {n : Nat}

/-- Numbers with one text are one number. -/
theorem toString_inj {m : Nat} (h : (toString m : String) = toString n) : m = n := by
  rw [← ofDigitChars_toString m, ← ofDigitChars_toString n, h]

theorem isDigit_of_mem_toString (h : c ∈ (toString n).toList) : c.isDigit = true := by
  rw [Nat.toString_eq_ofList_toDigits, String.toList_ofList] at h
  exact Nat.isDigit_of_mem_toDigits (by omega) (by omega) h

/-- A number in range is read back from its text. -/
theorem parse_i64_toString (h : n < 2 ^ 63) : parse_i64 (toString n) = some (n : Int) := by
  have hdigits : parse_digits (toString n).toList = some n := by
    have hne : (toString n).toList ≠ [] := by
      simp
    have hall : (toString n).toList.all Char.isDigit = true :=
      all_eq_true.mpr fun c hc => isDigit_of_mem_toString hc
    rw [parse_digits, if_pos ⟨hne, hall⟩, ofDigitChars_toString]
  unfold parse_i64
  split
  · next digits hd =>
    have hminus := isDigit_of_mem_toString (n := n) (c := '-') (by rw [hd]; exact .head _)
    nomatch hminus
  · next digits hd =>
    have hplus := isDigit_of_mem_toString (n := n) (c := '+') (by rw [hd]; exact .head _)
    nomatch hplus
  · rw [hdigits, Option.bind_some, if_pos h]

theorem toString_ne_empty (n : Nat) : (toString n : String) ≠ "" := by
  intro h
  simp at h

end Framework.Text
