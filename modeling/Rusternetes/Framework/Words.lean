import Mathlib

/-! # Bit Arrays in Words and Bytes

    A growing bit array, kept in 64-bit words with the least significant word first,
    and its bytes with the most significant byte first and no leading zeros. Both
    stand for one number, whose binary digits are the bits of the array: so a bit
    array that is written out in bytes and read back has the same bits, and bytes
    that are read and written out again only lose their leading zeros.
-/

open List Nat

namespace Framework

abbrev Word := BitVec 64

abbrev Byte := BitVec 8

namespace Words

/-! ### The number -/

/-- The number of a list of words, the least significant word first. -/
def word_value (ws : List Word) : Nat := Nat.ofDigits (2 ^ 64) (ws.map BitVec.toNat)

/-- The number of a list of bytes, the most significant byte first. -/
def byte_value (bs : List Byte) : Nat := Nat.ofDigits 256 (bs.reverse.map BitVec.toNat)

def bit (ws : List Word) (i : Nat) : Bool := (ws.getD (i / 64) 0).getLsbD (i % 64)

variable (w : Word) (bs : List Byte) (ws : List Word) (i : Nat)

theorem word_value_cons : word_value (w :: ws) = 2 ^ 64 * word_value ws + w.toNat := by
  simp only [word_value, map_cons, ofDigits_cons]
  exact add_comm _ _

theorem bit_cons_of_lt {w : Word} {ws : List Word} {i : Nat} (h : i < 64) :
    bit (w :: ws) i = w.getLsbD i := by
  simp only [bit, div_eq_of_lt h, mod_eq_of_lt h, getD_cons_zero]

theorem bit_cons_of_le {w : Word} {ws : List Word} {i : Nat} (h : 64 ≤ i) :
    bit (w :: ws) i = bit ws (i - 64) := by
  have hdiv : i / 64 = (i - 64) / 64 + 1 := by omega
  have hmod : i % 64 = (i - 64) % 64 := by omega
  simp [bit, hdiv, hmod]

theorem testBit_word_value : (word_value ws).testBit i = bit ws i := by
  induction ws generalizing i with
  | nil => simp [word_value, bit]
  | cons w ws ih =>
    rw [word_value_cons, testBit_two_pow_mul_add _ w.isLt]
    by_cases h : i < 64
    · rw [if_pos h, bit_cons_of_lt h, BitVec.testBit_toNat]
    · rw [if_neg h, bit_cons_of_le (Nat.le_of_not_lt h), ih]

theorem byte_value_append (as bs : List Byte) :
    byte_value (as ++ bs) = byte_value bs + 256 ^ bs.length * byte_value as := by
  simp only [byte_value, reverse_append, map_append, ofDigits_append,
    length_map, length_reverse]

/-! ### Trimming -/

/-- The words without the zeros at the end. -/
def trim (ws : List Word) : List Word := ws.rdropWhile (· = 0)

theorem word_value_append_zero : word_value (ws ++ [0]) = word_value ws := by
  simp [word_value, ofDigits_append]

theorem word_value_trim : word_value (trim ws) = word_value ws := by
  unfold trim
  induction ws using reverseRecOn with
  | nil => rfl
  | append_singleton ws w ih =>
    by_cases h : w = 0
    · subst h
      rw [rdropWhile_concat_pos _ _ _ (by simp), ih, word_value_append_zero]
    · rw [rdropWhile_concat_neg _ _ _ (by simpa using h)]

theorem bit_trim : bit (trim ws) i = bit ws i := by
  rw [← testBit_word_value, ← testBit_word_value, word_value_trim]

theorem byte_value_dropWhile : byte_value (bs.dropWhile (· = 0)) = byte_value bs := by
  induction bs with
  | nil => rfl
  | cons b bs ih =>
    by_cases h : b = 0
    · subst h
      rw [dropWhile_cons_of_pos (by simp), ih]
      have hcons : byte_value ((0 : Byte) :: bs) = byte_value ([(0 : Byte)] ++ bs) := rfl
      rw [hcons, byte_value_append]
      simp [byte_value]
    · rw [dropWhile_cons_of_neg (by simpa using h)]

/-! ### Words in bytes -/

def to_be_bytes (w : Word) : List Byte :=
  [7, 6, 5, 4, 3, 2, 1, 0].map fun i => (w >>> (8 * i)).setWidth 8

/-- `u64::from_be_bytes`, of eight bytes or fewer with zeros put in front. -/
def from_be_bytes (bs : List Byte) : Word := BitVec.ofNat 64 (byte_value bs)

theorem byte_value_to_be_bytes : byte_value (to_be_bytes w) = w.toNat := by
  simp only [byte_value, to_be_bytes, map_cons, map_nil, reverse_cons,
    reverse_nil, nil_append, cons_append, ofDigits_cons, ofDigits_nil,
    BitVec.toNat_setWidth, BitVec.toNat_ushiftRight, shiftRight_eq_div_pow]
  omega

/-- The bytes of an array, without leading zeros. -/
def to_bytes (ws : List Word) : List Byte :=
  (ws.reverse.flatMap to_be_bytes).dropWhile (· = 0)

theorem byte_value_flatMap : byte_value (ws.reverse.flatMap to_be_bytes) = word_value ws := by
  induction ws with
  | nil => rfl
  | cons w ws ih =>
    have hlen : (to_be_bytes w).length = 8 := rfl
    rw [reverse_cons, flatMap_append, byte_value_append, ih, word_value_cons]
    simp only [flatMap_cons, flatMap_nil, append_nil, byte_value_to_be_bytes, hlen]
    omega

theorem byte_value_to_bytes : byte_value (to_bytes ws) = word_value ws := by
  rw [to_bytes, byte_value_dropWhile, byte_value_flatMap]

/-! ### Words from bytes -/

/-- A list in pieces of eight; the last may be shorter. -/
def chunks {α : Type} : List α → List (List α)
  | [] => []
  | a :: b :: c :: d :: e :: f :: g :: h :: rest => [a, b, c, d, e, f, g, h] :: chunks rest
  | short => [short]

/-- `rchunks(8)`: the pieces from the end on; the first may be shorter. -/
def rchunks {α : Type} (l : List α) : List (List α) := (chunks l.reverse).map List.reverse

def of_bytes (bs : List Byte) : List Word := trim ((rchunks bs).map from_be_bytes)

theorem toNat_from_be_bytes {bs : List Byte} (h : bs.length ≤ 8) :
    (from_be_bytes bs).toNat = byte_value bs := by
  have hlt : byte_value bs < 2 ^ 64 := by
    have hdigits : byte_value bs < 256 ^ (bs.reverse.map BitVec.toNat).length := by
      apply ofDigits_lt_base_pow_length (by omega)
      exact forall_mem_map.mpr fun b _ => b.isLt
    calc byte_value bs < 256 ^ (bs.reverse.map BitVec.toNat).length := hdigits
      _ ≤ 256 ^ 8 := Nat.pow_le_pow_right (by omega) (by simpa using h)
      _ = 2 ^ 64 := by norm_num
  rw [from_be_bytes, BitVec.toNat_ofNat, mod_eq_of_lt hlt]

theorem word_value_chunks (l : List Byte) :
    word_value ((chunks l).map fun c => from_be_bytes c.reverse) = byte_value l.reverse := by
  induction l using chunks.induct with
  | case1 => rfl
  | case2 a b c d e f g h rest ih =>
    rw [chunks, map_cons, word_value_cons, ih, toNat_from_be_bytes (by simp)]
    simp only [byte_value, reverse_reverse, map_cons, map_nil, ofDigits_cons,
      ofDigits_nil]
    omega
  | case3 short hne hlong =>
    have hlen : short.length ≤ 8 := by
      by_contra hgt
      rcases short with _ | ⟨a, _ | ⟨b, _ | ⟨c, _ | ⟨d, _ | ⟨e, _ | ⟨f, _ | ⟨g, _ | ⟨h, rest⟩⟩⟩⟩⟩⟩⟩⟩
      case cons.cons.cons.cons.cons.cons.cons.cons => exact hlong a b c d e f g h rest rfl
      all_goals simp at hgt
    have hchunks : chunks short = [short] := by
      rw [chunks]
      · exact hne
      · exact hlong
    rw [hchunks, map_cons, word_value_cons, toNat_from_be_bytes (by simpa using hlen)]
    simp [word_value]

theorem word_value_of_bytes : word_value (of_bytes bs) = byte_value bs := by
  have h := word_value_chunks bs.reverse
  rw [reverse_reverse] at h
  rw [of_bytes, word_value_trim, rchunks, map_map]
  exact h

theorem bit_of_bytes_to_bytes : bit (of_bytes (to_bytes ws)) i = bit ws i := by
  rw [← testBit_word_value, ← testBit_word_value, word_value_of_bytes, byte_value_to_bytes]

/-- Bytes without leading zeros are fixed by their number. -/
theorem dropWhile_eq_of_value {as bs : List Byte} (h : byte_value as = byte_value bs) :
    as.dropWhile (· = 0) = bs.dropWhile (· = 0) := by
  have hdigits : ∀ cs : List Byte, digits 256 (byte_value (cs.dropWhile (· = 0))) =
      (cs.dropWhile (· = 0)).reverse.map BitVec.toNat := by
    intro cs
    refine digits_ofDigits 256 (by omega) _ ?_ (fun hne => ?_)
    · exact forall_mem_map.mpr fun c _ => c.isLt
    · have hcs : cs.dropWhile (· = 0) ≠ [] := by simpa using hne
      have hhead := head_dropWhile_not _ hcs
      rw [getLast_map, getLast_reverse]
      exact fun hzero => of_decide_eq_false hhead (BitVec.eq_of_toNat_eq hzero)
  have heq := (hdigits as).symm.trans ((congrArg _ ?_).trans (hdigits bs))
  · exact reverse_injective (map_injective_iff.mpr (fun _ _ => BitVec.eq_of_toNat_eq) heq)
  · rw [byte_value_dropWhile, byte_value_dropWhile, h]

theorem to_bytes_of_bytes : to_bytes (of_bytes bs) = bs.dropWhile (· = 0) := by
  exact dropWhile_eq_of_value (by rw [byte_value_flatMap, word_value_of_bytes])

/-! ### Set bits -/

theorem testBit_sub_one {x t : Nat} (hlow : ∀ i < t, x.testBit i = false)
    (ht : x.testBit t = true) (j : Nat) :
    (x.testBit j && (x - 1).testBit j) = (x.testBit j && decide (j ≠ t)) := by
  have hdvd : x % 2 ^ t = 0 := by
    refine eq_of_testBit_eq fun i => ?_
    by_cases hi : i < t
    · simp [hlow i hi]
    · simp [hi]
  obtain ⟨q, hq⟩ : ∃ q, x = 2 ^ t * (2 * q + 1) + 0 := by
    rw [testBit_eq_decide_div_mod_eq, decide_eq_true_eq] at ht
    refine ⟨x / 2 ^ t / 2, ?_⟩
    have hx := div_add_mod x (2 ^ t)
    have hodd := div_add_mod (x / 2 ^ t) 2
    rw [ht] at hodd
    rw [hodd, ← hdvd, hx]
  have hpos := Nat.two_pow_pos t
  have hpred : x - 1 = 2 ^ t * (2 * q) + (2 ^ t - 1) := by
    rw [hq, mul_add]
    omega
  rw [hpred, hq, testBit_two_pow_mul_add _ hpos, testBit_two_pow_mul_add _ (by omega)]
  by_cases hj : j < t
  · simp [hj]
  · rw [if_neg hj, if_neg hj]
    cases hd : j - t with
    | zero =>
      have hjt : j = t := by omega
      simp [hjt]
    | succ k =>
      have hjt : j ≠ t := by omega
      have hdiv : (2 * q + 1) / 2 = q := by omega
      simp [testBit_succ, hjt, hdiv]

/-- The set bits of a word, the lowest first: each is taken off the word. -/
def ones : Nat → Word → List Nat
  | 0, _ => []
  | fuel + 1, w => if w = 0 then [] else w.ctz.toNat :: ones fuel (w &&& (w - 1))

theorem getLsbD_and_sub_one {w : Word} (hw : w ≠ 0) (j : Nat) :
    (w &&& (w - 1)).getLsbD j = (w.getLsbD j && decide (j ≠ w.ctz.toNat)) := by
  have hle : (1 : Word) ≤ w := by
    rw [BitVec.le_def]
    have hne : w.toNat ≠ 0 := fun h => hw (BitVec.eq_of_toNat_eq h)
    simpa using one_le_iff_ne_zero.mpr hne
  rw [BitVec.getLsbD_and, ← BitVec.testBit_toNat, ← BitVec.testBit_toNat,
    BitVec.toNat_sub_of_le hle]
  exact testBit_sub_one (fun i hi => BitVec.getLsbD_false_of_lt_ctz hi)
    (BitVec.getLsbD_true_ctz_of_ne_zero hw) j

theorem ones_spec (fuel : Nat) {w : Word} {k : Nat} (hf : 64 ≤ fuel + k)
    (hk : ∀ i < k, w.getLsbD i = false) :
    (ones fuel w).Pairwise (· < ·) ∧ ∀ i, i ∈ ones fuel w ↔ w.getLsbD i = true := by
  induction fuel generalizing w k with
  | zero =>
    refine ⟨.nil, fun i => ?_⟩
    by_cases hi : i < k
    · simp [ones, hk i hi]
    · simp [ones, BitVec.getLsbD_of_ge w i (by omega)]
  | succ fuel ih =>
    unfold ones
    split_ifs with hw
    · simp [hw]
    · have ht := BitVec.getLsbD_true_ctz_of_ne_zero hw
      have hkt : k ≤ w.ctz.toNat := by
        by_contra hlt
        simp [hk _ (Nat.lt_of_not_le hlt)] at ht
      have hrest : ∀ i < w.ctz.toNat + 1, (w &&& (w - 1)).getLsbD i = false := by
        intro i hi
        rw [getLsbD_and_sub_one hw]
        by_cases hit : i = w.ctz.toNat
        · simp [hit]
        · rw [BitVec.getLsbD_false_of_lt_ctz (by omega), Bool.false_and]
      obtain ⟨hsorted, hmem⟩ := ih (by omega) hrest
      refine ⟨pairwise_cons.mpr ⟨fun i hi => ?_, hsorted⟩, fun i => ?_⟩
      · by_contra hle
        rw [hmem, hrest i (by omega)] at hi
        cases hi
      · rw [mem_cons, hmem, getLsbD_and_sub_one hw]
        by_cases hit : i = w.ctz.toNat
        · simp [hit, ht]
        · simp [hit]

theorem ones_eq : ones 64 w = (List.range 64).filter w.getLsbD := by
  obtain ⟨hsorted, hmem⟩ := ones_spec 64 (w := w) (k := 0) le_rfl (fun i hi => by omega)
  refine hsorted.eq_of_mem_iff (pairwise_lt_range.filter _) fun i => ?_
  rw [hmem, mem_filter, mem_range]
  exact ⟨fun h => ⟨BitVec.lt_of_getLsbD h, h⟩, fun h => h.2⟩

def set_bits (ws : List Word) : List Nat :=
  ws.zipIdx.flatMap fun (w, i) => (ones 64 w).map (i * 64 + ·)

theorem set_bits_eq : set_bits ws = (List.range (ws.length * 64)).filter (bit ws) := by
  induction ws using reverseRecOn with
  | nil => rfl
  | append_singleton ws w ih =>
    have hold : ∀ i ∈ range (ws.length * 64), bit (ws ++ [w]) i = bit ws i := by
      intro i hi
      have hlt : i / 64 < ws.length := by
        rw [mem_range] at hi
        omega
      simp [bit, getD, getElem?_append_left hlt]
    have hnew : ∀ i ∈ range 64,
        (bit (ws ++ [w]) ∘ (ws.length * 64 + ·)) i = w.getLsbD i := by
      intro i hi
      rw [mem_range] at hi
      have hdiv : (ws.length * 64 + i) / 64 = ws.length := by omega
      have hmod : (ws.length * 64 + i) % 64 = i := by omega
      simp [bit, getD, hdiv, hmod]
    rw [length_append, length_singleton, add_mul, one_mul, range_add,
      filter_append, filter_congr hold, ← ih, filter_map,
      filter_congr hnew, ← ones_eq]
    simp [set_bits, zipIdx_append]

theorem set_bits_sorted : (set_bits ws).Pairwise (· < ·) := by
  rw [set_bits_eq]
  exact pairwise_lt_range.filter _

theorem mem_set_bits : i ∈ set_bits ws ↔ bit ws i = true := by
  rw [set_bits_eq, mem_filter, mem_range]
  refine ⟨fun h => h.2, fun h => ⟨?_, h⟩⟩
  by_contra hge
  have hout : ws[i / 64]? = none := getElem?_eq_none (by omega)
  simp [bit, getD, hout] at h

end Words

end Framework
