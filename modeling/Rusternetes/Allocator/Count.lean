import Rusternetes.Allocator.Bitmap

/-! # The Count of the Bitmap

    `count` is kept beside the bits. The operations keep it the number of set
    bits, all of them items of the range, and then `free`, `allocate_next` and
    `allocated` say what they are for. `restore` counts the bits of any bytes,
    items of the range or not.
-/

open Common Framework List

namespace Allocator

namespace AllocationBitmap

variable {b b' : AllocationBitmap} {x : Nat}

/-- The set bits. -/
def marks (b : AllocationBitmap) : Finset Nat := b.allocated.toFinset

theorem mem_marks : x ∈ b.marks ↔ b.bit x = true := by
  rw [marks, mem_toFinset]
  exact Words.mem_set_bits _ _

theorem card_marks (b : AllocationBitmap) : b.marks.card = b.allocated.length :=
  toFinset_card_of_nodup (Words.set_bits_sorted _).nodup

theorem sum_count_ones (b : AllocationBitmap) : (b.words.map count_ones).sum = b.marks.card := by
  have hlen : ∀ w, count_ones w = (Words.ones 64 w).length := fun w => by
    rw [Words.ones_eq, count_ones, countP_eq_length_filter]
  nth_rewrite 1 [← zipIdx_map_fst 0 b.words]
  rw [card_marks, allocated, Words.set_bits, length_flatMap, map_map]
  simp [Function.comp_def, hlen, length_map]

theorem restore_count {range_spec : String} {data : List Byte}
    (h : b.restore range_spec data = .ok b') : b'.count = b'.marks.card ∧ b'.max = b.max := by
  unfold restore at h
  split_ifs at h
  cases h
  exact ⟨sum_count_ones { b with words := Words.of_bytes data }, rfl⟩

/-- The count is that of the set bits, which are items of the range. -/
structure Counted (b : AllocationBitmap) : Prop where
  count : b.count = b.marks.card
  below : ∀ x, b.bit x = true → x < b.max

theorem scan_none {base n start : Nat} (h : b.scan base n start = none) (hb : base ≤ x)
    (hx : x < base + n) : b.bit x = true := by
  have hn : 0 < n := by omega
  have hseen := find?_eq_none.mp h x (mem_map.mpr
    ⟨(x - base + (n - start % n)) % n, mem_range.mpr (Nat.mod_lt _ hn), ?_⟩)
  · simpa using hseen
  · have hlt := Nat.mod_lt start hn
    have hsum : start + (x - base + (n - start % n)) = x - base + n * (start / n + 1) := by
      have hstart := Nat.div_add_mod start n
      rw [Nat.mul_add]
      omega
    rw [Nat.add_mod_mod, hsum, Nat.add_mul_mod_self_left, Nat.mod_eq_of_lt (by omega)]
    omega

def clear (b : AllocationBitmap) : Finset Nat := (Finset.range b.max).filter fun x => b.bit x = false

/-- What the functions promise of the items below `max`. -/
structure Contract (b : AllocationBitmap) : Prop where
  free : b.free = some b.clear.card
  full : ∀ first second b', b.allocate_next first second = .ok (none, b') →
    ∀ x < b.max, b.bit x = true
  below : ∀ x ∈ b.allocated, x < b.max

theorem Counted.card_clear (h : b.Counted) : b.clear.card + b.count = b.max := by
  have hmarks : b.marks = (Finset.range b.max).filter fun x => ¬ b.bit x = false := by
    ext x
    rw [mem_marks, Finset.mem_filter, Finset.mem_range, Bool.not_eq_false]
    exact ⟨fun hx => ⟨h.below x hx, hx⟩, fun hx => hx.2⟩
  rw [h.count, hmarks, clear, Finset.card_filter_add_card_filter_not, Finset.card_range]

theorem Counted.full (h : b.Counted) (hfull : b.max ≤ b.count) (hx : x < b.max) :
    b.bit x = true := by
  have hempty : b.clear = ∅ := Finset.card_eq_zero.mp (by have := h.card_clear; omega)
  by_contra hbit
  have hmem : x ∈ b.clear := Finset.mem_filter.mpr ⟨Finset.mem_range.mpr hx, by simpa using hbit⟩
  simp [hempty] at hmem

theorem Counted.scan_full (h : b.Counted) {first second : Nat}
    (hscan : b.random_scan_with_offset first second = .ok none) (hx : x < b.max) :
    b.bit x = true := by
  unfold random_scan_with_offset at hscan
  by_cases hfull : b.count ≥ b.max
  · exact h.full hfull hx
  by_cases hempty : b.max ≤ b.offset
  · rw [if_neg hfull, if_pos hempty] at hscan
    cases hscan
  rw [if_neg hfull, if_neg hempty] at hscan
  split at hscan
  · cases hscan
  · rename_i hupper
    by_cases ho : b.offset ≤ x
    · exact scan_none hupper ho (by omega)
    · rw [if_neg (by omega)] at hscan
      exact scan_none (Except.ok.inj hscan) (Nat.zero_le x) (by omega)

theorem Counted.contract (h : b.Counted) : b.Contract where
  free := by
    have hcard := h.card_clear
    rw [AllocationBitmap.free, if_pos (by omega)]
    exact congrArg some (by omega)
  full := by
    intro first second b' hnext x hx
    unfold allocate_next at hnext
    split at hnext
    · cases hnext
    · rename_i hscan
      exact h.scan_full hscan hx
    · cases hnext
  below := fun x hx => h.below x ((Words.mem_set_bits _ _).mp hx)

/-- A restored bitmap keeps the contract exactly when the bytes mark no item
    outside the range. -/
theorem restored_keeps_contract_iff {range_spec : String} {data : List Byte}
    (h : b.restore range_spec data = .ok b') :
    b'.Contract ↔ ∀ x, taken data x = true → x < b.max := by
  obtain ⟨hcount, hmax⟩ := restore_count h
  constructor
  · intro hc x hx
    rw [← restore_bit h] at hx
    exact hmax ▸ hc.below x ((Words.mem_set_bits _ _).mpr hx)
  · intro hbelow
    refine Counted.contract ⟨hcount, fun x hx => hmax ▸ hbelow x ?_⟩
    rwa [← restore_bit h]

theorem restored_keeps_contract_byte :
    ∃ b', (new 8 "spec").restore "spec" [129] = .ok b' ∧ b'.Contract := by
  have hbits : Words.set_bits (Words.of_bytes [129]) = [0, 7] := by decide +kernel
  obtain ⟨b', h⟩ : ∃ b', (new 8 "spec").restore "spec" [129] = .ok b' := ⟨_, rfl⟩
  refine ⟨b', h, (restored_keeps_contract_iff h).mpr fun x hx => ?_⟩
  have hmem := (Words.mem_set_bits _ x).mpr hx
  rw [hbits] at hmem
  simp only [mem_cons, not_mem_nil, or_false] at hmem
  show x < 8
  omega

/-- One byte marks two items past a range of one: the subtraction of `free`
    underflows, `allocate_next` refuses the free item 0, and `allocated` has the
    items 1 and 2. -/
theorem restore_counts_items_out_of_range :
    ∃ b', (new 1 "spec").restore "spec" [6] = .ok b' ∧ b'.free = none ∧
      b'.bit 0 = false ∧ b'.allocate_next 0 0 = .ok (none, b') ∧ b'.allocated = [1, 2] :=
  ⟨_, rfl, by decide +kernel, by decide +kernel, rfl, by decide +kernel⟩

/-! ### Runs -/

/-- A call on the bitmap, with what the random generator answers. -/
inductive Call where
  | allocate (offset : Nat)
  | allocate_next (first second : Nat)
  | release (offset : Nat)

def call (b : AllocationBitmap) : Call → AllocationBitmap
  | .allocate offset =>
    match b.allocate offset with
    | .ok (_, b') => b'
    | .error _ => b
  | .allocate_next first second =>
    match b.allocate_next first second with
    | .ok (_, b') => b'
    | .error _ => b
  | .release offset => b.release offset

/-- What every call keeps. -/
structure Kept (b b' : AllocationBitmap) : Prop extends Counted b' where
  trimmed : b'.words.getLast? ≠ some 0
  range : b'.max = b.max ∧ b'.offset = b.offset ∧ b'.range_spec = b.range_spec

theorem getLast_set_on {ws : List Word} (h : ws.getLast? ≠ some 0) (i : Nat) :
    (set_on ws i).getLast? ≠ some 0 := by
  unfold set_on
  rw [getLast?_eq_getElem?] at h
  simp only [getLast?_eq_getElem?, length_set, length_append, length_replicate]
  by_cases hi : i / 64 = ws.length + (i / 64 + 1 - ws.length) - 1
  · -- the last word is the one that gets the bit
    rw [← hi, getElem?_set_self (by simp; omega)]
    intro heq
    have hbit := congrArg (BitVec.getLsbD · (i % 64)) (Option.some.inj heq)
    have hlt : i % 64 < 64 := Nat.mod_lt _ (by omega)
    simp [getLsbD_mask i hlt] at hbit
  · have hsame : i / 64 + 1 - ws.length = 0 := by omega
    rw [getElem?_set_ne hi]
    simpa [hsame] using h

theorem getLast_set_off {ws : List Word} (h : ws.getLast? ≠ some 0) (i : Nat) :
    (set_off ws i).getLast? ≠ some 0 := by
  unfold set_off
  split_ifs
  · generalize ws.set (i / 64) _ = ws'
    intro hlast
    have hne : Words.trim ws' ≠ [] := fun hnil => by rw [hnil] at hlast; cases hlast
    rw [getLast?_eq_some_getLast hne] at hlast
    exact rdropWhile_last_not _ ws' hne (decide_eq_true (Option.some.inj hlast))
  · exact h

variable {b₀ : AllocationBitmap} (h : Kept b₀ b)
include h

theorem Kept.change {on : Bool} {n : Nat} {s : Finset Nat} (hx : on = true → x < b.max)
    (hs : ∀ y, y ∈ s ↔ (if y = x then on else b.bit y) = true) (hn : n = s.card) :
    Kept b₀ { b.set_bit x on with count := n } := by
  have hbit : ∀ y, AllocationBitmap.bit { b.set_bit x on with count := n } y =
      if y = x then on else b.bit y := fun y => bit_set_bit b x y on
  have hmarks : marks { b.set_bit x on with count := n } = s := by
    ext y
    rw [mem_marks, hbit, hs]
  refine ⟨⟨hn.trans (congrArg _ hmarks.symm), fun y hy => ?_⟩, ?_, h.range⟩
  · rw [hbit] at hy
    split_ifs at hy with hyx
    · exact hyx ▸ hx hy
    · exact h.below y hy
  · cases on with
    | true => exact getLast_set_on h.trimmed x
    | false => exact getLast_set_off h.trimmed x

theorem Kept.grant (hx : x < b.max) (hbit : b.bit x = false) :
    Kept b₀ { b.set_bit x true with count := b.count + 1 } := by
  have hnot : x ∉ b.marks := by rw [mem_marks, hbit]; simp
  refine h.change (s := insert x b.marks) (fun _ => hx) (fun y => ?_) ?_
  · rw [Finset.mem_insert, mem_marks]
    by_cases hy : y = x <;> simp [hy]
  · rw [Finset.card_insert_of_notMem hnot, h.count]

theorem Kept.release (x : Nat) : Kept b₀ (b.release x) := by
  unfold AllocationBitmap.release
  split_ifs with hbit
  · refine h.change (s := b.marks.erase x) (nofun) (fun y => ?_) ?_
    · rw [Finset.mem_erase, mem_marks]
      by_cases hy : y = x <;> simp [hy]
    · rw [Finset.card_erase_of_mem (mem_marks.mpr hbit), h.count]
  · exact h

theorem Kept.call (c : Call) : Kept b₀ (b.call c) := by
  cases c with
  | allocate =>
    unfold AllocationBitmap.call allocate
    dsimp only
    split_ifs with hmax hbit
    · exact h
    · exact h
    · exact h.grant (Nat.lt_of_not_le hmax) (by simpa using hbit)
  | allocate_next first second =>
    unfold AllocationBitmap.call allocate_next
    cases hscan : b.random_scan_with_offset first second with
    | error e =>
      simp only [hscan]
      exact h
    | ok found =>
      simp only [hscan]
      cases found with
      | none => exact h
      | some x =>
        obtain ⟨_, _, _, hfound, hlt⟩ := random_scan_spec hscan
        exact h.grant (hlt (scan_mem hfound).2) (scan_free hfound)
  | release offset => exact h.release offset

omit h

theorem run_kept (max : Nat) (range_spec : String) (offset : Nat) (calls : List Call) :
    Kept (with_offset max range_spec offset)
      (calls.foldl call (with_offset max range_spec offset)) := by
  refine foldlRecOn calls call ?_ fun _ h c _ => h.call c
  refine ⟨⟨rfl, fun x hx => ?_⟩, by simp [with_offset], rfl, rfl, rfl⟩
  simp [bit, with_offset, Words.bit] at hx

theorem random_scan_band {first second : Nat}
    (h : b.random_scan_with_offset first second = .ok (some x)) {y : Nat} (hy : b.offset ≤ y)
    (hmax : y < b.max) (hfree : b.bit y = false) : b.offset ≤ x := by
  unfold random_scan_with_offset at h
  cases hupper : b.scan b.offset (b.max - b.offset) first with
  | some i =>
    simp only [hupper] at h
    split_ifs at h
    · cases h
    · cases h
      exact (scan_mem hupper).1
  | none =>
    have htaken := scan_none hupper hy (by omega)
    rw [hfree] at htaken
    cases htaken

theorem restore_snapshot {c : AllocationBitmap} (hc : c.range_spec = b.range_spec) :
    ∃ c', c.restore b.snapshot.1 b.snapshot.2 = .ok c' ∧ c'.bit = b.bit ∧
      c'.count = b.marks.card := by
  obtain ⟨c', hrestore⟩ : ∃ c', c.restore b.snapshot.1 b.snapshot.2 = .ok c' :=
    ⟨_, if_neg (by simp [hc, snapshot])⟩
  have hbit : c'.bit = b.bit := funext fun j => (restore_bit hrestore j).trans (taken_snapshot b j)
  refine ⟨c', hrestore, hbit, ?_⟩
  rw [(restore_count hrestore).1]
  refine congrArg _ (Finset.ext fun j => ?_)
  rw [mem_marks, mem_marks, hbit]

/-- After any calls the count is that of the set bits, which are below `max`; no
    word at the end is zero; `allocated` lists the set bits in order;
    `allocate_next` finds a clear item, above the offset if there is one, and
    nothing only if there is none; a snapshot restores the bits and the count,
    and restored bytes are written without their leading zeros. -/
theorem bitmap_exact {max : Nat} {range_spec : String} {offset : Nat}
    (ho : offset < max ∨ offset = 0) (calls : List Call) :
    ∀ b, calls.foldl call (with_offset max range_spec offset) = b →
      b.count = b.allocated.length ∧ (∀ x, b.bit x = true → x < max) ∧
      b.words.getLast? ≠ some 0 ∧
      b.allocated.Pairwise (· < ·) ∧ (∀ x, x ∈ b.allocated ↔ b.bit x = true) ∧
      (∀ first second,
        (b.allocate_next first second = .ok (none, b) ∧ ∀ x < max, b.bit x = true) ∨
        ∃ x b', b.allocate_next first second = .ok (some x, b') ∧ b.bit x = false ∧ x < max ∧
          ((∃ y, offset ≤ y ∧ y < max ∧ b.bit y = false) → offset ≤ x)) ∧
      (∀ c : AllocationBitmap, c.range_spec = range_spec →
        (∃ c', c.restore b.snapshot.1 b.snapshot.2 = .ok c' ∧ c'.bit = b.bit ∧ c'.count = b.count) ∧
        ∀ data, ∃ c', c.restore range_spec data = .ok c' ∧
          c'.snapshot.2 = data.dropWhile (· = 0)) := by
  rintro b rfl
  have h := run_kept max range_spec offset calls
  generalize calls.foldl call (with_offset max range_spec offset) = b at h
  obtain ⟨rfl, rfl, rfl⟩ := h.range
  refine ⟨h.count.trans (card_marks b), h.below, h.trimmed, Words.set_bits_sorted _,
    Words.mem_set_bits _, fun first second => ?_, fun c hc => ⟨?_, fun data => ?_⟩⟩
  · unfold allocate_next
    cases hscan : b.random_scan_with_offset first second with
    | error e =>
      unfold random_scan_with_offset at hscan
      split_ifs at hscan with hfull hempty
      · rcases ho with ho | ho <;> omega
      all_goals
        split at hscan <;> cases hscan
    | ok found =>
      cases found with
      | none => exact .inl ⟨rfl, fun x hx => h.scan_full hscan hx⟩
      | some x =>
        obtain ⟨_, _, _, hfound, hlt⟩ := random_scan_spec hscan
        exact .inr ⟨x, _, rfl, scan_free hfound, hlt (scan_mem hfound).2,
          fun ⟨y, hy, hmax, hfree⟩ => random_scan_band hscan hy hmax hfree⟩
  · rw [h.count]
    exact restore_snapshot hc
  · exact ⟨_, if_neg (by simp [hc]), Words.to_bytes_of_bytes data⟩

theorem bitmap_exact_band :
    ∃ b, [Call.allocate 3, .allocate_next 5 0].foldl call (with_offset 4 "spec" 2) = b ∧
      b.count = b.allocated.length ∧ b.allocated = [2, 3] :=
  ⟨_, rfl, (bitmap_exact (.inl (by decide)) _ _ rfl).1, by decide +kernel⟩

end AllocationBitmap

end Allocator
