import Mathlib
import Rusternetes.Framework.Folds
import Rusternetes.Framework.Text

/-! # Resource Quantities

    A quantity is a mantissa and a scale, a power of ten, of 128 and 32 bits. Where the code
    calculates without a check, a result that does not fit is an overflow.
-/

open Framework Folds

namespace Quantities

/-- A signed integer of `w + 1` bits. -/
abbrev Signed (w : Nat) := { n : Int // -2 ^ w ≤ n ∧ n < 2 ^ w }

def checked (w : Nat) (n : Int) : Option (Signed w) :=
  if h : -2 ^ w ≤ n ∧ n < 2 ^ w then some ⟨n, h⟩ else none

inductive Overflow where
  | overflow
  deriving DecidableEq

/-- The result of an operation that is not checked. -/
def unchecked (w : Nat) (n : Int) : Except Overflow (Signed w) :=
  (checked w n).elim (.error .overflow) .ok

theorem checked_eq_some {w : Nat} {n : Int} {m : Signed w} : checked w n = some m ↔ n = m := by
  unfold checked
  split_ifs with h
  · rw [Option.some.injEq, Subtype.ext_iff]
  · refine iff_of_false nofun ?_
    rintro rfl
    exact h m.2

theorem unchecked_eq_ok {w : Nat} {n : Int} {m : Signed w} : unchecked w n = .ok m ↔ n = m := by
  rw [← checked_eq_some, unchecked]
  cases checked w n <;> simp

/-- The closest number of `w + 1` bits. -/
def clamp (w : Nat) (n : Int) : Int := max (-2 ^ w) (min n (2 ^ w - 1))

theorem elim_checked (w : Nat) (n : Int) :
    (checked w n).elim (if n < 0 then -2 ^ w else 2 ^ w - 1) Subtype.val = clamp w n := by
  have hpos : (0 : Int) < 2 ^ w := pow_pos (by decide) w
  unfold checked clamp
  split_ifs <;> simp only [Option.elim_some, Option.elim_none] <;> omega

inductive Format where
  | DecimalSI
  | BinarySI
  | DecimalExponent
  deriving DecidableEq

structure Quantity where
  mantissa : Signed 127
  scale : Signed 31
  format : Format
  deriving DecidableEq

/-! ### Parsing -/

inductive SuffixKind where
  | DecimalSI (e : Int)
  | DecimalExponent (e : Int)
  | BinarySI (e : Nat)

/-- The suffixes that `interpret_suffix` knows. -/
def suffixes : List (String × SuffixKind) :=
  [("", .DecimalSI 0), ("E", .DecimalSI 18), ("n", .DecimalSI (-9)), ("u", .DecimalSI (-6)),
    ("m", .DecimalSI (-3)), ("k", .DecimalSI 3), ("M", .DecimalSI 6), ("G", .DecimalSI 9),
    ("T", .DecimalSI 12), ("P", .DecimalSI 15), ("Ki", .BinarySI 10), ("Mi", .BinarySI 20),
    ("Gi", .BinarySI 30), ("Ti", .BinarySI 40), ("Pi", .BinarySI 50), ("Ei", .BinarySI 60)]

def interpret_suffix (suffix : List Char) : Option SuffixKind :=
  let exponent := match suffix with
    | 'e' :: rest | 'E' :: rest => (Text.parse_i64 (String.ofList rest)).bind (checked 31)
    | _ => none
  match exponent with
  | some e => some (.DecimalExponent e)
  | none => suffixes.lookup (String.ofList suffix)

/-- `Quantity::parse`, `none` where it is an error. -/
def parse (input : String) : Except Overflow (Option Quantity) := do
  let (sign, rest) := match input.toList with
    | '+' :: rest => (1, rest)
    | '-' :: rest => (-1, rest)
    | rest => ((1 : Int), rest)
  let (whole, rest) := rest.span Char.isDigit
  let (frac, suffix) := match rest with
    | '.' :: rest => rest.span Char.isDigit
    | rest => ([], rest)
  if whole ++ frac = [] then return none
  let some digits := checked 127 (Nat.ofDigitChars 10 (whole ++ frac) 0) | return none
  -- the length is cast to 32 bits
  let scale ← unchecked 31 (-(frac.length : Int).bmod (2 ^ 32))
  let some kind := interpret_suffix suffix | return none
  let mantissa : Int := digits * sign
  match kind with
  | .DecimalSI e => return do some ⟨← checked 127 mantissa, ← checked 31 (scale + e), .DecimalSI⟩
  | .DecimalExponent e =>
    return do some ⟨← checked 127 mantissa, ← checked 31 (scale + e), .DecimalExponent⟩
  | .BinarySI e => return do some ⟨← checked 127 (mantissa * 2 ^ e), scale, .BinarySI⟩

namespace Quantity

/-! ### Sums -/

/-- A side of `Quantity::align`. -/
def rescale (q : Quantity) (common : Signed 31) : Except Overflow (Option (Signed 127)) := do
  let shift ← unchecked 31 (q.scale - common)
  return do checked 127 (q.mantissa * (← checked 127 (10 ^ shift.1.toNat)))

def align (a b : Quantity) : Except Overflow (Option (Signed 127 × Signed 127 × Signed 31)) := do
  let common := min a.scale b.scale
  let m ← a.rescale common
  let n ← b.rescale common
  return do return (← m, ← n, common)

def effective_format (a b : Quantity) : Format := if a.mantissa.1 = 0 then b.format else a.format

/-- `Quantity::add` and `Quantity::sub`. -/
def combine (op : Int → Int → Int) (a b : Quantity) : Except Overflow (Option Quantity) := do
  let aligned ← a.align b
  return do
    let (m, n, common) ← aligned
    return ⟨← checked 127 (op m n), common, a.effective_format b⟩

def add (a b : Quantity) : Except Overflow (Option Quantity) := a.combine (· + ·) b

def sub (a b : Quantity) : Except Overflow (Option Quantity) := a.combine (· - ·) b

def number (q : Quantity) : ℚ := q.mantissa * 10 ^ q.scale.1

def at_scale (q : Quantity) (common : Int) : Int := q.mantissa * 10 ^ (q.scale - common).toNat

/-- `add`, from one quantity to the next. -/
def sum (q : Quantity) : List Quantity → Except Overflow (Option Quantity)
  | [] => .ok (some q)
  | b :: l => do match ← q.add b with
    | some next => next.sum l
    | none => return none

section exact

variable {a b q r : Quantity} {common : Signed 31}

theorem rescale_eq_ok_iff (hle : common ≤ q.scale) :
    (∃ m, q.rescale common = .ok m) ↔ q.scale.1 - common < 2 ^ 31 := by
  have hle : common.1 ≤ q.scale.1 := hle
  constructor
  · rintro ⟨m, h⟩
    obtain ⟨shift, hshift, -⟩ := bind_eq_ok.mp h
    rw [unchecked_eq_ok.mp hshift]
    exact shift.2.2
  · intro h
    have hshift : unchecked 31 (q.scale - common) = .ok ⟨q.scale - common, by omega, h⟩ :=
      unchecked_eq_ok.mpr rfl
    exact ⟨_, bind_eq_ok.mpr ⟨_, hshift, rfl⟩⟩

theorem at_scale_mul (hle : common ≤ q.scale) :
    (q.at_scale common : ℚ) * 10 ^ common.1 = q.number := by
  have hle : common.1 ≤ q.scale.1 := hle
  have hscale : q.scale.1 = (q.scale.1 - common).toNat + common := by omega
  rw [number, hscale, zpow_add₀ (by norm_num), zpow_natCast, at_scale]
  push_cast
  ring

theorem rescale_exact (hle : common ≤ q.scale) {m : Signed 127}
    (h : q.rescale common = .ok (some m)) : (m : ℚ) * 10 ^ common.1 = q.number := by
  obtain ⟨shift, hshift, h⟩ := bind_eq_ok.mp h
  obtain ⟨factor, hfactor, hm⟩ := Option.bind_eq_some_iff.mp (Except.ok.inj h)
  rw [unchecked_eq_ok] at hshift
  rw [checked_eq_some] at hfactor hm
  rw [← at_scale_mul hle, ← hm, ← hfactor, ← hshift]
  rfl

theorem sub_min_lt_iff {s t : Signed 31} {c : Nat} (hc : 0 < c) :
    s.1 - (min s t).1 < c ∧ t.1 - (min s t).1 < c ↔ (s.1 - t.1).natAbs < c := by
  rcases le_total s t with hle | hle
  · rw [min_eq_left hle]
    have hle : s.1 ≤ t.1 := hle
    omega
  · rw [min_eq_right hle]
    have hle : t.1 ≤ s.1 := hle
    omega

theorem combine_eq_ok_iff {op : Int → Int → Int} :
    (∃ r, a.combine op b = .ok r) ↔ (a.scale.1 - b.scale.1).natAbs < 2 ^ 31 := by
  have hiff : (∃ r, a.combine op b = .ok r) ↔ a.scale.1 - (min a.scale b.scale).1 < 2 ^ 31 ∧
      b.scale.1 - (min a.scale b.scale).1 < 2 ^ 31 := by
    rw [← rescale_eq_ok_iff (min_le_left _ _), ← rescale_eq_ok_iff (min_le_right _ _)]
    constructor
    · rintro ⟨r, h⟩
      obtain ⟨aligned, h, -⟩ := bind_eq_ok.mp h
      obtain ⟨m, hm, h⟩ := bind_eq_ok.mp h
      obtain ⟨n, hn, -⟩ := bind_eq_ok.mp h
      exact ⟨⟨m, hm⟩, n, hn⟩
    · rintro ⟨⟨m, hm⟩, n, hn⟩
      obtain ⟨aligned, halign⟩ : ∃ aligned, a.align b = .ok aligned :=
        ⟨_, bind_eq_ok.mpr ⟨m, hm, bind_eq_ok.mpr ⟨n, hn, rfl⟩⟩⟩
      exact ⟨_, bind_eq_ok.mpr ⟨aligned, halign, rfl⟩⟩
  exact hiff.trans (sub_min_lt_iff (by norm_num))

theorem combine_exact {op : Int → Int → Int} {f : ℚ → ℚ → ℚ}
    (hop : ∀ (m n : Int) (t : ℚ), op m n * t = f (m * t) (n * t))
    (h : a.combine op b = .ok (some q)) :
    q.number = f a.number b.number ∧ q.format = a.effective_format b := by
  obtain ⟨aligned, halign, hq⟩ := bind_eq_ok.mp h
  obtain ⟨m', hm, halign⟩ := bind_eq_ok.mp halign
  obtain ⟨n', hn, halign⟩ := bind_eq_ok.mp halign
  cases halign
  obtain ⟨_, halign, hq⟩ := Option.bind_eq_some_iff.mp (Except.ok.inj hq)
  obtain ⟨m, hm', halign⟩ := Option.bind_eq_some_iff.mp halign
  obtain ⟨n, hn', halign⟩ := Option.bind_eq_some_iff.mp halign
  cases halign
  obtain ⟨k, hk, hq⟩ := Option.bind_eq_some_iff.mp hq
  cases hq
  subst hm' hn'
  refine ⟨?_, rfl⟩
  rw [← rescale_exact (min_le_left _ _) hm, ← rescale_exact (min_le_right _ _) hn, ← hop,
    checked_eq_some.mp hk]
  rfl

theorem sum_exact {l : List Quantity} (h : q.sum l = .ok (some r)) :
    r.number = ((q :: l).map number).sum := by
  induction l generalizing q with
  | nil =>
    cases h
    simp
  | cons b l ih =>
    obtain ⟨next, hnext, h⟩ := bind_eq_ok.mp h
    cases next with
    | none => cases h
    | some next =>
      have hadd := (combine_exact (f := (· + ·)) (fun m n t => by push_cast; ring) hnext).1
      simp only [ih h, List.map_cons, List.sum_cons, hadd, add_assoc]

end exact

/-- **Sums and differences are exact or refused**, if the scales are less than `2 ^ 31` apart;
    else their difference overflows. -/
theorem add_sub_exact (a b : Quantity) :
    (((∃ r, a.add b = .ok r) ∧ ∃ r, a.sub b = .ok r) ↔
      (a.scale.1 - b.scale.1).natAbs < 2 ^ 31) ∧
    (∀ q, a.add b = .ok (some q) → q.number = a.number + b.number ∧
      q.format = if a.mantissa.1 = 0 then b.format else a.format) ∧
    (∀ q, a.sub b = .ok (some q) → q.number = a.number - b.number ∧
      q.format = if a.mantissa.1 = 0 then b.format else a.format) ∧
    ∀ l a' l', (a :: l).Perm (a' :: l') → ∀ r r', a.sum l = .ok (some r) →
      a'.sum l' = .ok (some r') → r.number = r'.number := by
  refine ⟨?_, ?_, ?_, ?_⟩
  · rw [add, sub, combine_eq_ok_iff, combine_eq_ok_iff, and_self_iff]
  · exact fun q h => combine_exact (fun m n t => by push_cast; ring) h
  · exact fun q h => combine_exact (fun m n t => by push_cast; ring) h
  · intro l a' l' hperm r r' h h'
    rw [sum_exact h, sum_exact h', (hperm.map number).sum_eq]

/-- The difference of the scales of two quantities that are parsed overflows. -/
theorem far_scales_overflow : ∃ a b, parse "1e2147483647" = .ok (some a) ∧
    parse "1e-2147483648" = .ok (some b) ∧ a.add b = .error .overflow :=
  ⟨⟨⟨1, by decide⟩, ⟨2147483647, by decide⟩, .DecimalExponent⟩,
    ⟨⟨1, by decide⟩, ⟨-2147483648, by decide⟩, .DecimalExponent⟩, by decide +kernel⟩

/-! ### Comparison -/

/-- A side of `Quantity::cmp_value`. -/
def saturating_rescale (q : Quantity) (common : Signed 31) : Except Overflow Int := do
  let shift ← unchecked 31 (q.scale - common)
  let factor ← unchecked 127 (10 ^ shift.1.toNat)
  return (checked 127 (q.mantissa * factor)).elim
    (if q.mantissa.1 < 0 then -2 ^ 127 else 2 ^ 127 - 1) Subtype.val

def cmp_value (a b : Quantity) : Except Overflow Ordering := do
  if a.scale = b.scale then return compare a.mantissa.1 b.mantissa.1
  let common := min a.scale b.scale
  let m ← a.saturating_rescale common
  let n ← b.saturating_rescale common
  return compare m n

section compare

variable {q : Quantity} {common : Signed 31}

theorem saturating_rescale_eq (hle : common ≤ q.scale) : q.saturating_rescale common =
    if q.scale.1 - common < 39 then .ok (clamp 127 (q.at_scale common)) else .error .overflow := by
  have hle : common.1 ≤ q.scale.1 := hle
  have hpow : (0 : Int) < 10 ^ (q.scale.1 - common).toNat := pow_pos (by decide) _
  split_ifs with h
  · have hshift : unchecked 31 (q.scale - common) = .ok ⟨q.scale - common, by omega, by omega⟩ :=
      unchecked_eq_ok.mpr rfl
    have hlt : (10 : Int) ^ (q.scale.1 - common).toNat < 2 ^ 127 :=
      lt_of_le_of_lt (pow_le_pow_right₀ (by decide) (by omega : _ ≤ 38)) (by decide)
    have hfactor : unchecked 127 (10 ^ (q.scale.1 - common).toNat) = .ok ⟨_, by omega, hlt⟩ :=
      unchecked_eq_ok.mpr rfl
    have hneg : q.at_scale common < 0 ↔ q.mantissa.1 < 0 :=
      mul_neg_iff.trans (by simp [hpow, hpow.not_gt])
    refine bind_eq_ok.mpr ⟨_, hshift, bind_eq_ok.mpr ⟨_, hfactor, congrArg Except.ok ?_⟩⟩
    simp only [← elim_checked, hneg]
    rfl
  · cases hres : q.saturating_rescale common with
    | error e => rfl
    | ok m =>
      -- a power above the thirty-eighth does not fit
      obtain ⟨shift, hshift, hres⟩ := bind_eq_ok.mp hres
      obtain ⟨factor, hfactor, -⟩ := bind_eq_ok.mp hres
      rw [unchecked_eq_ok] at hshift hfactor
      have hge : (10 : Int) ^ 39 ≤ 10 ^ shift.1.toNat := pow_le_pow_right₀ (by decide) (by omega)
      omega

theorem compare_mul {m n : Int} {t : ℚ} (ht : 0 < t) :
    compare (m * t : ℚ) (n * t) = compare m n := by
  have hmono : StrictMono fun m : Int => (m : ℚ) * t := Int.cast_strictMono.mul_const ht
  rw [← cmp_eq_compare, ← cmp_eq_compare]
  exact hmono.cmp_map_eq m n

theorem compare_clamp {m n : Int} :
    compare (clamp 127 m) (clamp 127 n) = compare m n ↔ (clamp 127 m = clamp 127 n → m = n) := by
  rcases lt_trichotomy m n with h | rfl | h
  · rw [compare_lt_iff_lt.mpr h, compare_lt_iff_lt]
    unfold clamp
    omega
  · simp
  · rw [compare_gt_iff_gt.mpr h, compare_gt_iff_gt]
    unfold clamp
    omega

end compare

/-- A comparison is right where different numbers are not held at one end of the range. -/
theorem cmp_value_clamp_iff (a b : Quantity) :
    a.cmp_value b = .ok (compare a.number b.number) ↔
      a.scale = b.scale ∨ (a.scale.1 - b.scale.1).natAbs < 39 ∧
        (clamp 127 (a.at_scale (min a.scale b.scale).1) =
          clamp 127 (b.at_scale (min a.scale b.scale).1) → a.number = b.number) := by
  have hpow : ∀ s : Int, (0 : ℚ) < 10 ^ s := zpow_pos (by norm_num)
  unfold cmp_value
  by_cases heq : a.scale = b.scale
  · refine iff_of_true ?_ (.inl heq)
    rw [if_pos heq, number, number, heq, compare_mul (hpow _)]
    rfl
  · dsimp only
    rw [saturating_rescale_eq (min_le_left _ _), saturating_rescale_eq (min_le_right _ _),
      ← at_scale_mul (min_le_left a.scale b.scale), ← at_scale_mul (min_le_right a.scale b.scale),
      compare_mul (hpow _), mul_left_inj' (hpow _).ne', Int.cast_inj, or_iff_right heq,
      ← compare_clamp, ← sub_min_lt_iff (by norm_num)]
    split_ifs with ha hb hb
    · rw [and_iff_right ⟨ha, hb⟩]
      exact ⟨fun h => Except.ok.inj h, congrArg Except.ok⟩
    · exact iff_of_false nofun fun h => hb h.1.2
    · exact iff_of_false nofun fun h => ha h.1.1
    · exact iff_of_false nofun fun h => ha h.1.1

/-- The mantissa at the lower scale of the other is outside the range, and the mantissa of the
    other is the end of the range that it is held at. -/
def HeldAt (a b : Quantity) : Prop :=
  b.scale < a.scale ∧
    (2 ^ 127 ≤ a.at_scale b.scale ∧ b.mantissa.1 = 2 ^ 127 - 1 ∨
      a.at_scale b.scale < -2 ^ 127 ∧ b.mantissa.1 = -2 ^ 127)

theorem clamp_apart_iff {a b : Quantity} (hlt : b.scale < a.scale) :
    (clamp 127 (a.at_scale b.scale) = clamp 127 (b.at_scale b.scale) → a.number = b.number) ↔
      ¬ a.HeldAt b := by
  have hpow : (0 : ℚ) < 10 ^ b.scale.1 := zpow_pos (by norm_num) _
  have hnumber : a.number = b.number ↔ a.at_scale b.scale = b.at_scale b.scale := by
    rw [← at_scale_mul hlt.le, ← at_scale_mul (le_refl b.scale), mul_left_inj' hpow.ne',
      Int.cast_inj]
  have hself : b.at_scale b.scale = b.mantissa := by simp [at_scale]
  obtain ⟨hmin, hmax⟩ := b.mantissa.2
  rw [hnumber, hself, HeldAt, and_iff_right hlt]
  unfold clamp
  omega

/-- **Quantities compare as their numbers** exactly if they have one scale, or the scales are
    at most 38 apart and neither is held at the other. -/
theorem cmp_value_iff (a b : Quantity) :
    a.cmp_value b = .ok (compare a.number b.number) ↔
      a.scale = b.scale ∨
        (a.scale.1 - b.scale.1).natAbs < 39 ∧ ¬ a.HeldAt b ∧ ¬ b.HeldAt a := by
  rw [cmp_value_clamp_iff]
  refine or_congr_right' fun hne => and_congr_right fun _ => ?_
  rcases lt_or_gt_of_ne hne with hlt | hlt
  · rw [min_eq_left hlt.le, eq_comm, eq_comm (a := a.number), clamp_apart_iff hlt,
      and_iff_right fun h => hlt.asymm h.1]
  · rw [min_eq_right hlt.le, clamp_apart_iff hlt, and_iff_left fun h => hlt.asymm h.1]

/-- The power of ten between two quantities that are parsed overflows. -/
theorem far_scales_do_not_compare : ∃ a b, parse "1e39" = .ok (some a) ∧
    parse "1" = .ok (some b) ∧ a.cmp_value b = .error .overflow :=
  ⟨⟨⟨1, by decide⟩, ⟨39, by decide⟩, .DecimalExponent⟩,
    ⟨⟨1, by decide⟩, ⟨0, by decide⟩, .DecimalSI⟩, by decide +kernel⟩

end Quantity

end Quantities
