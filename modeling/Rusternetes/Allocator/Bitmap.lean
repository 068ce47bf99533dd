import Rusternetes.Common.Error
import Rusternetes.Framework.Words

/-! # The Bitmap Allocator

    `AllocationBitmap`: each item of a range has an offset, and a set bit marks it
    taken. Its snapshot is the bytes of the bit array.
-/

open Common Framework List

namespace Allocator

structure AllocationBitmap where
  offset : Nat
  max : Nat
  range_spec : String
  count : Nat
  /-- The bit array, least significant word first. -/
  words : List Word

namespace AllocationBitmap

def with_offset (max : Nat) (range_spec : String) (offset : Nat) : AllocationBitmap :=
  ⟨offset, max, range_spec, 0, []⟩

def new (max : Nat) (range_spec : String) : AllocationBitmap := with_offset max range_spec 0

def bit (b : AllocationBitmap) (i : Nat) : Bool := Words.bit b.words i

def mask (i : Nat) : Word := (1 : Word) <<< (i % 64)

/-- The words with a bit set; they grow as needed. -/
def set_on (ws : List Word) (i : Nat) : List Word :=
  let grown := ws ++ List.replicate (i / 64 + 1 - ws.length) 0
  grown.set (i / 64) (grown.getD (i / 64) 0 ||| mask i)

/-- The words with a bit cleared. -/
def set_off (ws : List Word) (i : Nat) : List Word :=
  if i / 64 < ws.length then
    Words.trim (ws.set (i / 64) (ws.getD (i / 64) 0 &&& ~~~(mask i)))
  else ws

def set_bit (b : AllocationBitmap) (i : Nat) (on : Bool) : AllocationBitmap :=
  { b with words := if on then set_on b.words i else set_off b.words i }

/-- `AllocationBitmap::allocate`: whether the item was free. -/
def allocate (b : AllocationBitmap) (offset : Nat) : Except Error (Bool × AllocationBitmap) :=
  if offset ≥ b.max then
    .error (.Internal ("offset " ++ toString offset ++ " out of range [0," ++ toString b.max ++ "]"))
  else if b.bit offset then .ok (false, b)
  else .ok (true, { b.set_bit offset true with count := b.count + 1 })

/-- The first free item of `n` items from `base` on, in turn from `start`. -/
def scan (b : AllocationBitmap) (base n start : Nat) : Option Nat :=
  ((List.range n).map fun i => base + (start + i) % n).find? fun i => !b.bit i

/-- `random_scan_with_offset`. The two numbers are what the generator answers, each
    for its range; it fails for an empty one. -/
def random_scan_with_offset (b : AllocationBitmap) (first second : Nat) :
    Except Error (Option Nat) :=
  if b.count ≥ b.max then .ok none
  else if b.max ≤ b.offset then .error (.Internal "cannot sample empty range")
  else
    match b.scan b.offset (b.max - b.offset) first with
    | some i => .ok (some i)
    | none => if b.offset = 0 then .ok none else .ok (b.scan 0 b.offset second)

def allocate_next (b : AllocationBitmap) (first second : Nat) :
    Except Error (Option Nat × AllocationBitmap) :=
  match b.random_scan_with_offset first second with
  | .error e => .error e
  | .ok none => .ok (none, b)
  | .ok (some next) => .ok (some next, { b.set_bit next true with count := b.count + 1 })

def release (b : AllocationBitmap) (offset : Nat) : AllocationBitmap :=
  if b.bit offset then { b.set_bit offset false with count := b.count - 1 } else b

def allocated (b : AllocationBitmap) : List Nat := Words.set_bits b.words

/-- `AllocationBitmap::free`; `none` where the subtraction underflows. -/
def free (b : AllocationBitmap) : Option Nat :=
  if b.count ≤ b.max then some (b.max - b.count) else none

def snapshot (b : AllocationBitmap) : String × List Byte := (b.range_spec, Words.to_bytes b.words)

def count_ones (w : Word) : Nat := (List.range 64).countP fun i => w.getLsbD i

def restore (b : AllocationBitmap) (range_spec : String) (data : List Byte) :
    Except Error AllocationBitmap :=
  if b.range_spec ≠ range_spec then
    .error (.Internal "the provided range does not match the current range")
  else
    let words := Words.of_bytes data
    .ok { b with words := words, count := (words.map count_ones).sum }

/-! ### Bits -/

theorem getD_set {ws : List Word} {k : Nat} (hk : k < ws.length) (w : Word) (i : Nat) :
    (ws.set k w).getD i 0 = if i = k then w else ws.getD i 0 := by
  by_cases h : i = k
  · subst h
    simp [getD, hk]
  · simp [getD, h, Ne.symm h]

theorem getD_grown (ws : List Word) (n i : Nat) :
    (ws ++ List.replicate n 0).getD i 0 = ws.getD i 0 := by
  simp only [getD]
  by_cases h : i < ws.length
  · rw [getElem?_append_left h]
  · have hle : ws.length ≤ i := Nat.le_of_not_lt h
    rw [getElem?_append_right hle, getElem?_eq_none hle]
    by_cases hn : i - ws.length < n
    · simp [hn]
    · rw [getElem?_eq_none (by simpa using hn)]

theorem bit_set {ws : List Word} {w : Word} {i : Nat} (on : Bool) (hi : i / 64 < ws.length)
    (hw : ∀ k < 64, w.getLsbD k = if k = i % 64 then on else (ws.getD (i / 64) 0).getLsbD k)
    (j : Nat) : Words.bit (ws.set (i / 64) w) j = if j = i then on else Words.bit ws j := by
  unfold Words.bit
  rw [getD_set hi]
  by_cases hword : j / 64 = i / 64
  · rw [if_pos hword, hw _ (Nat.mod_lt _ (by omega)), hword]
    split_ifs with hbit hj hj
    · rfl
    · omega
    · exact absurd (by rw [hj]) hbit
    · rfl
  · have hj : j ≠ i := fun h => hword (by rw [h])
    rw [if_neg hword, if_neg hj]

theorem getLsbD_mask {k : Nat} (i : Nat) (hk : k < 64) :
    (mask i).getLsbD k = decide (k = i % 64) := by
  unfold mask
  have hi : i % 64 < 64 := Nat.mod_lt _ (by omega)
  by_cases h : k = i % 64
  · subst h
    simp [hi]
  · simp only [h, decide_false]
    by_cases hle : k < i % 64
    · simp [hle]
    · have hpos : k - i % 64 ≠ 0 := by omega
      simp [hpos]

theorem bit_set_on (ws : List Word) (i j : Nat) :
    Words.bit (set_on ws i) j = if j = i then true else Words.bit ws j := by
  unfold set_on
  have hlen : i / 64 < (ws ++ replicate (i / 64 + 1 - ws.length) 0).length := by
    rw [length_append, length_replicate]
    omega
  rw [bit_set true hlen]
  · simp only [Words.bit, getD_grown]
  · intro k hk
    rw [BitVec.getLsbD_or, getLsbD_mask i hk]
    by_cases h : k = i % 64 <;> simp [h]

theorem bit_clear (ws : List Word) (i j : Nat) :
    Words.bit (ws.set (i / 64) (ws.getD (i / 64) 0 &&& ~~~(mask i))) j =
      if j = i then false else Words.bit ws j := by
  by_cases hlen : i / 64 < ws.length
  · rw [bit_set false hlen]
    intro k hk
    rw [BitVec.getLsbD_and, BitVec.getLsbD_not, getLsbD_mask i hk]
    by_cases h : k = i % 64 <;> simp [h, hk]
  · rw [set_eq_of_length_le (Nat.le_of_not_lt hlen)]
    split_ifs with h
    · have hout : ws[j / 64]? = none := getElem?_eq_none (Nat.le_of_not_lt (h ▸ hlen))
      simp [Words.bit, hout]
    · rfl

theorem bit_set_off (ws : List Word) (i j : Nat) :
    Words.bit (set_off ws i) j = if j = i then false else Words.bit ws j := by
  rw [← bit_clear]
  unfold set_off
  split
  · exact Words.bit_trim _ j
  · next hlen => rw [set_eq_of_length_le (Nat.le_of_not_lt hlen)]

theorem bit_set_bit (b : AllocationBitmap) (i j : Nat) (on : Bool) :
    (b.set_bit i on).bit j = if j = i then on else b.bit j := by
  cases on with
  | true => exact bit_set_on b.words i j
  | false => exact bit_set_off b.words i j

/-! ### Operations -/

/-- An item that is granted was free; it is the only change. -/
def Granted (b : AllocationBitmap) (x : Nat) (b' : AllocationBitmap) : Prop :=
  b.bit x = false ∧ ∀ j, b'.bit j = if j = x then true else b.bit j

variable {b b' : AllocationBitmap} {x : Nat}

theorem allocate_granted (h : b.allocate x = .ok (true, b')) : b.Granted x b' := by
  unfold allocate at h
  split_ifs at h with hmax hbit
  · cases h
  · cases h
    exact ⟨by simpa using hbit, fun j => bit_set_bit b x j true⟩

theorem scan_free {base n start : Nat} (h : b.scan base n start = some x) : b.bit x = false := by
  have hfound := find?_some h
  simpa using hfound

theorem scan_mem {base n start : Nat} (h : b.scan base n start = some x) :
    base ≤ x ∧ x < base + n := by
  have hmem := mem_of_find?_eq_some h
  simp only [mem_map, mem_range] at hmem
  obtain ⟨i, hi, rfl⟩ := hmem
  have hlt : (start + i) % n < n := Nat.mod_lt _ (by omega)
  omega

variable {first second : Nat}

theorem random_scan_spec (h : b.random_scan_with_offset first second = .ok (some x)) :
    ∃ base n start, b.scan base n start = some x ∧ (x < base + n → x < b.max) := by
  unfold random_scan_with_offset at h
  cases hscan : b.scan b.offset (b.max - b.offset) first with
  | some i =>
    simp only [hscan] at h
    split_ifs at h with hfull hempty
    · cases h
    · cases h
      exact ⟨_, _, _, hscan, by omega⟩
  | none =>
    simp only [hscan] at h
    split_ifs at h with hfull hempty hzero
    · cases h
    · cases h
    · exact ⟨_, _, _, Except.ok.inj h, by omega⟩

/-- What `allocate_next` found and did. -/
theorem allocate_next_spec (h : b.allocate_next first second = .ok (some x, b')) :
    b.random_scan_with_offset first second = .ok (some x) ∧
      b' = { b.set_bit x true with count := b.count + 1 } := by
  unfold allocate_next at h
  split at h
  · cases h
  · cases h
  · rename_i next hnext
    cases h
    exact ⟨hnext, rfl⟩

theorem allocate_next_granted (h : b.allocate_next first second = .ok (some x, b')) :
    b.Granted x b' := by
  obtain ⟨hnext, rfl⟩ := allocate_next_spec h
  obtain ⟨_, _, _, hscan, _⟩ := random_scan_spec hnext
  exact ⟨scan_free hscan, fun j => bit_set_bit b x j true⟩

theorem bit_release (b : AllocationBitmap) (x j : Nat) :
    (b.release x).bit j = if j = x then false else b.bit j := by
  unfold release
  split_ifs with hbit h h
  · exact (bit_set_bit b x j false).trans (if_pos h)
  · exact (bit_set_bit b x j false).trans (if_neg h)
  · rw [h]
    simpa using hbit
  · rfl

def taken (data : List Byte) (i : Nat) : Bool := Words.bit (Words.of_bytes data) i

theorem restore_bit {range_spec : String} {data : List Byte}
    (h : b.restore range_spec data = .ok b') (j : Nat) : b'.bit j = taken data j := by
  unfold restore at h
  split_ifs at h
  cases h
  rfl

theorem taken_snapshot (b : AllocationBitmap) (j : Nat) : taken b.snapshot.2 j = b.bit j :=
  Words.bit_of_bytes_to_bytes b.words j

end AllocationBitmap

end Allocator
