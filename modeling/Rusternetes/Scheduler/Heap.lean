import Rusternetes.Framework.Table

/-! # The Keyed Heap

    `crates/scheduler/src/queue/heap.rs`: a binary heap of keys beside a map
    from each key to its object and to its position in the heap, so that an
    object can be changed in place or removed by key.

    * `HeapData` and its functions are the vector and the map as the source
      moves them: `swap`, `up`, `down`, `fix`, `remove_at`.
    * `Heap` carries what those keep: the map and the vector hold the same
      keys, each item's index is its key's position, and each object stands
      under its own key.
    * The public functions are specified through `get_by_key` alone: as a plain
      keyed map.

    Positions handed to the functions are always inside the vector. The loops
    take their greatest number of turns as a first argument; when it is used
    up, the loop condition is false anyway.
-/

open Framework List

namespace Scheduler

/-- An object and the index of its key in `queue`. -/
structure HeapItem (T : Type) where
  obj : T
  index : Nat

structure HeapData (K T : Type) [DecidableEq K] where
  items : AList (fun _ : K => HeapItem T)
  queue : List K

variable {K T : Type} [DecidableEq K]

namespace HeapData

/-- The object under `k`. -/
def obj (h : HeapData K T) (k : K) : Option T :=
  (h.items.lookup k).map HeapItem.obj

def less (less_fn : T → T → Bool) (h : HeapData K T) (i j : Nat) : Bool :=
  match h.queue[i]?.bind h.obj, h.queue[j]?.bind h.obj with
  | some a, some b => less_fn a b
  | _, _ => false

/-- `if let Some(it) = items.get_mut(k) { it.index = i }`. -/
def set_index (items : AList (fun _ : K => HeapItem T)) (k : K) (i : Nat) :
    AList (fun _ : K => HeapItem T) :=
  match items.lookup k with
  | some it => items.insert k { it with index := i }
  | none => items

def swap (h : HeapData K T) (i j : Nat) : HeapData K T :=
  match h.queue[i]?, h.queue[j]? with
  | some ki, some kj =>
    { queue := (h.queue.set i kj).set j ki
      items := set_index (set_index h.items kj i) ki j }
  | _, _ => h

/-- The loop of `Heap::up`. -/
def up_loop (less_fn : T → T → Bool) : Nat → HeapData K T → Nat → HeapData K T
  | 0, h, _ => h
  | fuel + 1, h, j =>
    if j > 0 then
      let i := (j - 1) / 2
      if i = j ∨ h.less less_fn j i = false then h
      else up_loop less_fn fuel (h.swap i j) i
    else h

def up (less_fn : T → T → Bool) (h : HeapData K T) (j : Nat) : HeapData K T :=
  up_loop less_fn j h j

/-- The loop of `Heap::down`, with the position it stops at. -/
def down_loop (less_fn : T → T → Bool) : Nat → HeapData K T → Nat → Nat → HeapData K T × Nat
  | 0, h, i, _ => (h, i)
  | fuel + 1, h, i, n =>
    let j1 := 2 * i + 1
    if j1 ≥ n then (h, i)
    else
      let j2 := j1 + 1
      let j := if j2 < n ∧ h.less less_fn j2 j1 = true then j2 else j1
      if h.less less_fn j i = false then (h, i)
      else down_loop less_fn fuel (h.swap i j) j n

/-- `Heap::down`, and whether the element moved. -/
def down (less_fn : T → T → Bool) (h : HeapData K T) (i0 n : Nat) : HeapData K T × Bool :=
  let r := down_loop less_fn (n - i0) h i0 n
  (r.1, decide (r.2 > i0))

/-- `if !self.down(i, n) { self.up(i) }`. -/
def sift (less_fn : T → T → Bool) (h : HeapData K T) (i n : Nat) : HeapData K T :=
  let r := h.down less_fn i n
  if r.2 then r.1 else r.1.up less_fn i

def fix (less_fn : T → T → Bool) (h : HeapData K T) (i : Nat) : HeapData K T :=
  h.sift less_fn i h.queue.length

def pop_last (h : HeapData K T) : HeapData K T × Option T :=
  match h.queue.getLast? with
  | some key => ({ queue := h.queue.dropLast, items := h.items.erase key }, h.obj key)
  | none => (h, none)

def remove_at (less_fn : T → T → Bool) (h : HeapData K T) (i : Nat) : HeapData K T × Option T :=
  let n := h.queue.length - 1
  if n ≠ i then ((h.swap i n).sift less_fn i n).pop_last else h.pop_last

/-! ### Positions -/

/-- The map and the vector agree: `k` stands at position `i` exactly when the
    map has an item for `k` with index `i`. -/
def Positions (h : HeapData K T) : Prop :=
  ∀ i k, h.queue[i]? = some k ↔ ∃ it, h.items.lookup k = some it ∧ it.index = i

/-- `h'` holds the same objects as `h`, perhaps at other positions. -/
structure Shuffled (h h' : HeapData K T) : Prop where
  positions : h'.Positions
  obj : ∀ k, h'.obj k = h.obj k
  length : h'.queue.length = h.queue.length

variable {h : HeapData K T}

theorem Shuffled.refl (hp : h.Positions) : Shuffled h h :=
  ⟨hp, fun _ => rfl, rfl⟩

theorem Shuffled.trans {h₁ h₂ h₃ : HeapData K T} (h₁₂ : Shuffled h₁ h₂) (h₂₃ : Shuffled h₂ h₃) :
    Shuffled h₁ h₃ :=
  ⟨h₂₃.positions, fun k => (h₂₃.obj k).trans (h₁₂.obj k), h₂₃.length.trans h₁₂.length⟩

variable {i j : Nat}

theorem Positions.unique (hp : h.Positions) {k : K} (hi : h.queue[i]? = some k)
    (hj : h.queue[j]? = some k) : i = j := by
  obtain ⟨it, hit, rfl⟩ := (hp i k).mp hi
  obtain ⟨it', hit', rfl⟩ := (hp j k).mp hj
  rw [hit] at hit'
  rw [Option.some.inj hit']

theorem lookup_set_index (items : AList (fun _ : K => HeapItem T)) (k : K) (i : Nat) (k' : K) :
    (set_index items k i).lookup k' =
      if k' = k then (items.lookup k).map (fun it => { it with index := i })
      else items.lookup k' := by
  unfold set_index
  cases hk : items.lookup k with
  | none =>
    split_ifs with h
    · rw [h, hk]; rfl
    · rfl
  | some it =>
    exact Table.lookup_insert_ite items k _ k'

/-- `swap` exchanges two positions. -/
theorem swap_queue (hi : i < h.queue.length) (hj : j < h.queue.length) (m : Nat) :
    (h.swap i j).queue[m]? = h.queue[Equiv.swap i j m]? := by
  unfold swap
  rw [getElem?_eq_getElem hi, getElem?_eq_getElem hj]
  simp only [getElem?_set, length_set, Equiv.swap_apply_def]
  grind

theorem swap_lookup (hp : h.Positions) (hi : i < h.queue.length) (hj : j < h.queue.length) (k : K) :
    (h.swap i j).items.lookup k =
      (h.items.lookup k).map fun it => { it with index := Equiv.swap i j it.index } := by
  obtain ⟨ki, hki⟩ : ∃ ki, h.queue[i]? = some ki := ⟨_, getElem?_eq_getElem hi⟩
  obtain ⟨kj, hkj⟩ : ∃ kj, h.queue[j]? = some kj := ⟨_, getElem?_eq_getElem hj⟩
  have hii := hp i k
  have hjj := hp j k
  rw [hki, Option.some.injEq] at hii
  rw [hkj, Option.some.injEq] at hjj
  unfold swap
  rw [hki, hkj]
  simp only [lookup_set_index, Equiv.swap_apply_def]
  by_cases hk : ki = k
  · subst hk
    obtain ⟨it, hit, hidx⟩ := hii.mp rfl
    by_cases hk' : kj = ki <;> grind
  · by_cases hk' : kj = k
    · grind
    · rw [if_neg (Ne.symm hk), if_neg (Ne.symm hk')]
      cases hit : h.items.lookup k with
      | none => rfl
      | some it =>
        have hni : it.index ≠ i := fun he => hk (hii.mpr ⟨it, hit, he⟩)
        have hnj : it.index ≠ j := fun he => hk' (hjj.mpr ⟨it, hit, he⟩)
        simp [hni, hnj]

/-- `swap` keeps the map and the vector in agreement. -/
theorem swap_shuffled (hp : h.Positions) (hi : i < h.queue.length) (hj : j < h.queue.length) :
    Shuffled h (h.swap i j) := by
  refine ⟨fun m k => ?_, fun k => ?_, ?_⟩
  · rw [swap_queue hi hj, hp, swap_lookup hp hi hj]
    simp [Equiv.swap_apply_eq_iff]
  · unfold HeapData.obj
    rw [swap_lookup hp hi hj, Option.map_map]
    rfl
  · unfold swap
    split <;> simp

/-! ### The loops -/

variable (less_fn : T → T → Bool)

/-- `up` from `j` shuffles the positions up to `j`. -/
theorem up_loop_spec (fuel : Nat) (hp : h.Positions) (hj : j < h.queue.length) :
    Shuffled h (up_loop less_fn fuel h j) ∧
    ∀ m, j < m → (up_loop less_fn fuel h j).queue[m]? = h.queue[m]? := by
  induction fuel generalizing h j with
  | zero => exact ⟨Shuffled.refl hp, fun _ _ => rfl⟩
  | succ fuel ih =>
    unfold up_loop
    simp only
    split_ifs with hpos hstop
    · exact ⟨Shuffled.refl hp, fun _ _ => rfl⟩
    · have hi : (j - 1) / 2 < h.queue.length := by omega
      have hsw := swap_shuffled hp hi hj
      obtain ⟨hsh, hframe⟩ := ih hsw.positions (by rw [hsw.length]; exact hi)
      refine ⟨hsw.trans hsh, fun m hm => ?_⟩
      rw [hframe m (by omega)]
      rw [swap_queue hi hj, Equiv.swap_apply_of_ne_of_ne (by omega) (by omega)]
    · exact ⟨Shuffled.refl hp, fun _ _ => rfl⟩

/-- `down` from `i` shuffles positions below `n`. -/
theorem down_loop_spec (fuel : Nat) (hp : h.Positions) {n : Nat} (hi : i < n)
    (hn : n ≤ h.queue.length) :
    Shuffled h (down_loop less_fn fuel h i n).1 ∧
    ∀ m, n ≤ m → (down_loop less_fn fuel h i n).1.queue[m]? = h.queue[m]? := by
  induction fuel generalizing h i with
  | zero => exact ⟨Shuffled.refl hp, fun _ _ => rfl⟩
  | succ fuel ih =>
    unfold down_loop
    simp only
    by_cases hend : 2 * i + 1 ≥ n
    · rw [if_pos hend]
      exact ⟨Shuffled.refl hp, fun _ _ => rfl⟩
    · rw [if_neg hend]
      -- the child the loop goes on with, whichever it is, is below `n`
      generalize hc : (if 2 * i + 1 + 1 < n ∧ h.less less_fn (2 * i + 1 + 1) (2 * i + 1) = true
        then 2 * i + 1 + 1 else 2 * i + 1) = j
      have hj : j < n := by
        split_ifs at hc with hj2
        · omega
        · omega
      split_ifs with hstop
      · exact ⟨Shuffled.refl hp, fun _ _ => rfl⟩
      · have hil : i < h.queue.length := by omega
        have hjl : j < h.queue.length := by omega
        have hsw := swap_shuffled hp hil hjl
        obtain ⟨hsh, hframe⟩ := ih hsw.positions hj (by rw [hsw.length]; exact hn)
        refine ⟨hsw.trans hsh, fun m hm => ?_⟩
        rw [hframe m hm]
        rw [swap_queue hil hjl, Equiv.swap_apply_of_ne_of_ne (by omega) (by omega)]

/-- Restoring the order at `i` shuffles positions below `n`. -/
theorem sift_spec (hp : h.Positions) {n : Nat} (hi : i < n) (hn : n ≤ h.queue.length) :
    Shuffled h (h.sift less_fn i n) ∧
    ∀ m, n ≤ m → (h.sift less_fn i n).queue[m]? = h.queue[m]? := by
  obtain ⟨hsh, hframe⟩ := down_loop_spec less_fn (n - i) hp hi hn
  unfold sift down
  simp only
  split_ifs
  · exact ⟨hsh, hframe⟩
  · obtain ⟨hsh', hframe'⟩ := up_loop_spec less_fn i hsh.positions
      (show i < (down_loop less_fn (n - i) h i n).1.queue.length by rw [hsh.length]; omega)
    refine ⟨hsh.trans hsh', fun m hm => ?_⟩
    exact (hframe' m (by omega)).trans (hframe m hm)

/-! ### Removal -/

theorem pop_last_spec (hp : h.Positions) {key : K}
    (hlast : h.queue[h.queue.length - 1]? = some key) :
    h.pop_last.1.Positions ∧ h.pop_last.2 = h.obj key ∧
    (∀ k, h.pop_last.1.obj k = if k = key then none else h.obj k) ∧
    h.pop_last.1.queue.length + 1 = h.queue.length := by
  have hlen : h.queue.length - 1 < h.queue.length := (List.getElem?_eq_some_iff.mp hlast).1
  have hget : h.queue.getLast? = some key := by rw [getLast?_eq_getElem?]; exact hlast
  have heq : h.pop_last =
      ({ queue := h.queue.dropLast, items := h.items.erase key }, h.obj key) := by
    unfold pop_last
    rw [hget]
  rw [heq]
  refine ⟨fun i k => ?_, rfl, fun k => ?_, by simp; omega⟩
  · simp only [getElem?_dropLast, Table.lookup_erase_ite]
    split_ifs with hi hk hk
    · subst hk
      simp only [false_and, exists_false, iff_false]
      intro hik
      have := hp.unique hik hlast
      omega
    · exact hp i k
    · simp
    · rw [← hp i k]
      refine iff_of_false (by simp) fun hik => ?_
      have hil : i < h.queue.length := (List.getElem?_eq_some_iff.mp hik).1
      have hie : i = h.queue.length - 1 := by omega
      rw [hie, hlast] at hik
      exact hk (Option.some.inj hik).symm
  · rw [HeapData.obj, Table.lookup_erase_ite]
    split_ifs <;> rfl

/-- `remove_at` removes the key at that position, and nothing else. -/
theorem remove_at_spec (hp : h.Positions) {key : K} (hi : h.queue[i]? = some key) :
    (h.remove_at less_fn i).1.Positions ∧ (h.remove_at less_fn i).2 = h.obj key ∧
    (∀ k, (h.remove_at less_fn i).1.obj k = if k = key then none else h.obj k) ∧
    (h.remove_at less_fn i).1.queue.length + 1 = h.queue.length := by
  have hil : i < h.queue.length := (List.getElem?_eq_some_iff.mp hi).1
  unfold remove_at
  simp only
  split_ifs with hne
  · -- the key is swapped to the last position, where sifting does not reach
    have hn : h.queue.length - 1 < h.queue.length := by omega
    have hsw := swap_shuffled hp hil hn
    obtain ⟨hsh, hframe⟩ := sift_spec less_fn hsw.positions
      (show i < h.queue.length - 1 by omega) (by rw [hsw.length]; omega)
    have hall := hsw.trans hsh
    have hlast : ((h.swap i (h.queue.length - 1)).sift less_fn i
        (h.queue.length - 1)).queue[((h.swap i (h.queue.length - 1)).sift less_fn i
        (h.queue.length - 1)).queue.length - 1]? = some key := by
      rw [hall.length, hframe _ le_rfl,
        swap_queue hil hn, Equiv.swap_apply_right, hi]
    obtain ⟨hpos, hres, hobj, hlen⟩ := pop_last_spec hall.positions hlast
    refine ⟨hpos, hres.trans (hall.obj key), fun k => ?_, hlen.trans hall.length⟩
    rw [hobj k, hall.obj k]
  · have hie : h.queue.length - 1 = i := by omega
    exact pop_last_spec hp (by rw [hie]; exact hi)

end HeapData

/-! ### The heap -/

/-- A heap with its invariant: the map and the vector agree, and every object
    stands under its own key. -/
structure Heap (key_fn : T → K) (less_fn : T → T → Bool) extends HeapData K T where
  positions : toHeapData.Positions
  keyed : ∀ k x, toHeapData.obj k = some x → key_fn x = k

namespace Heap

variable {key_fn : T → K} {less_fn : T → T → Bool}

def new : Heap key_fn less_fn where
  items := ∅
  queue := []
  positions := by
    intro i k
    simp
  keyed := by
    intro k x hx
    simp [HeapData.obj] at hx

def get_by_key (h : Heap key_fn less_fn) (key : K) : Option T := h.obj key

def has_key (h : Heap key_fn less_fn) (key : K) : Bool := (h.get_by_key key).isSome

def has (h : Heap key_fn less_fn) (x : T) : Bool := h.has_key (key_fn x)

def len (h : Heap key_fn less_fn) : Nat := h.queue.length

def is_empty (h : Heap key_fn less_fn) : Bool := h.queue.isEmpty

def peek (h : Heap key_fn less_fn) : Option T := h.queue[0]?.bind h.get_by_key

/-- The heap with other data that holds the same objects. -/
def shuffle (h : Heap key_fn less_fn) (d : HeapData K T)
    (hd : h.toHeapData.Shuffled d) : Heap key_fn less_fn where
  toHeapData := d
  positions := hd.positions
  keyed := fun k x hx => h.keyed k x ((hd.obj k).symm.trans hx)

variable (h : Heap key_fn less_fn) {x : T}

theorem append_positions (hnew : h.obj (key_fn x) = none) :
    HeapData.Positions { items := h.items.insert (key_fn x) ⟨x, h.queue.length⟩,
                         queue := h.queue ++ [key_fn x] } := by
  have hno : ∀ j : Nat, h.queue[j]? ≠ some (key_fn x) := by
    intro j hj
    obtain ⟨it, hit, _⟩ := (h.positions j (key_fn x)).mp hj
    cases (Option.map_eq_none_iff.mp hnew).symm.trans hit
  intro i k
  rw [getElem?_append, getElem?_singleton, Table.lookup_insert_ite]
  by_cases hk : k = key_fn x
  · subst hk
    simp only [if_true, Option.some.injEq, exists_eq_left']
    split_ifs with hi hlast
    · simp only [hno, false_iff]
      omega
    · simp only [true_iff]
      omega
    · simp only [false_iff]
      omega
  · rw [if_neg hk, ← h.positions i k]
    split_ifs with hi
    · exact Iff.rfl
    · simp [Ne.symm hk, getElem?_eq_none (not_lt.mp hi)]
    · simp [getElem?_eq_none (not_lt.mp hi)]

theorem append_obj (h : HeapData K T) (key : K) (x : T) (n : Nat) (queue : List K) (k : K) :
    HeapData.obj { items := h.items.insert key ⟨x, n⟩, queue := queue } k =
      if k = key then some x else h.obj k := by
  rw [HeapData.obj, Table.lookup_insert_ite]
  split_ifs <;> rfl

theorem insert_keyed (n : Nat) (queue : List K) (k : K) (y : T)
    (hy : HeapData.obj { items := h.items.insert (key_fn x) ⟨x, n⟩, queue := queue } k = some y) :
    key_fn y = k := by
  rw [append_obj h.toHeapData] at hy
  split_ifs at hy with hk
  · cases hy
    exact hk.symm
  · exact h.keyed k y hy

/-- Put `x` in the place of the object under its key. -/
def replace (h : Heap key_fn less_fn) (x : T) (index : Nat)
    (hidx : h.queue[index]? = some (key_fn x)) : Heap key_fn less_fn where
  items := h.items.insert (key_fn x) ⟨x, index⟩
  queue := h.queue
  positions := by
    intro i k
    rw [Table.lookup_insert_ite]
    split_ifs with hk
    · subst hk
      simp only [Option.some.injEq, exists_eq_left']
      constructor
      · exact h.positions.unique hidx
      · rintro rfl
        exact hidx
    · exact h.positions i k
  keyed := h.insert_keyed _ _

/-- Append `x`, whose key is new, to the vector. -/
def append (h : Heap key_fn less_fn) (x : T) (hnew : h.obj (key_fn x) = none) :
    Heap key_fn less_fn where
  items := h.items.insert (key_fn x) ⟨x, h.queue.length⟩
  queue := h.queue ++ [key_fn x]
  positions := h.append_positions hnew
  keyed := h.insert_keyed _ _

def add_or_update (h : Heap key_fn less_fn) (x : T) : Heap key_fn less_fn :=
  match hit : h.items.lookup (key_fn x) with
  | some item =>
    have hidx : h.queue[item.index]? = some (key_fn x) :=
      (h.positions item.index (key_fn x)).mpr ⟨item, hit, rfl⟩
    let h' := h.replace x item.index hidx
    h'.shuffle (h'.fix less_fn item.index)
      (HeapData.sift_spec less_fn h'.positions (List.getElem?_eq_some_iff.mp hidx).1
        le_rfl).1
  | none =>
    let h' := h.append x (by rw [HeapData.obj, hit]; rfl)
    h'.shuffle (h'.up less_fn h.queue.length)
      (HeapData.up_loop_spec less_fn _ h'.positions (by simp [h', append])).1

/-- The heap without the key at position `i`. -/
def remove (h : Heap key_fn less_fn) (i : Nat) {key : K} (hi : h.queue[i]? = some key) :
    Heap key_fn less_fn where
  toHeapData := (h.remove_at less_fn i).1
  positions := (HeapData.remove_at_spec less_fn h.positions hi).1
  keyed := by
    intro k x hx
    rw [(HeapData.remove_at_spec less_fn h.positions hi).2.2.1 k] at hx
    split_ifs at hx
    exact h.keyed k x hx

/-- The result of `remove_at`; the source panics where there is none. -/
def expect (r : Option T) : Except String T :=
  match r with
  | some x => .ok x
  | none => .error "item present"

def delete_by_key (h : Heap key_fn less_fn) (key : K) : Heap key_fn less_fn × Except String T :=
  match hit : h.items.lookup key with
  | some item =>
    (h.remove item.index ((h.positions item.index key).mpr ⟨item, hit, rfl⟩),
      expect (h.remove_at less_fn item.index).2)
  | none => (h, .error "object not found")

def delete (h : Heap key_fn less_fn) (x : T) : Heap key_fn less_fn × Except String T :=
  h.delete_by_key (key_fn x)

def pop (h : Heap key_fn less_fn) : Heap key_fn less_fn × Except String T :=
  match hq : h.queue[0]? with
  | none => (h, .error "heap is empty")
  | some _ => (h.remove 0 hq, expect (h.remove_at less_fn 0).2)

/-! ### The heap as a keyed map -/

/-- `add_or_update` sets the object of its key. -/
theorem get_by_key_add_or_update (x : T) (k : K) :
    (h.add_or_update x).get_by_key k = if k = key_fn x then some x else h.get_by_key k := by
  unfold add_or_update
  split
  · rename_i item hit
    have hidx : h.queue[item.index]? = some (key_fn x) :=
      (h.positions item.index (key_fn x)).mpr ⟨item, hit, rfl⟩
    have hsh := (HeapData.sift_spec less_fn (h.replace x item.index hidx).positions
      (List.getElem?_eq_some_iff.mp hidx).1 le_rfl).1
    exact (hsh.obj k).trans (append_obj h.toHeapData _ x item.index _ k)
  · rename_i hit
    have hnew : h.obj (key_fn x) = none := by rw [HeapData.obj, hit]; rfl
    have hsh := (HeapData.up_loop_spec less_fn h.queue.length (h.append x hnew).positions
      (show h.queue.length < (h.append x hnew).queue.length by simp [append])).1
    exact (hsh.obj k).trans (append_obj h.toHeapData _ x h.queue.length _ k)

theorem delete_by_key_none {key : K} (hk : h.get_by_key key = none) :
    h.delete_by_key key = (h, .error "object not found") := by
  have hlook : h.items.lookup key = none := Option.map_eq_none_iff.mp hk
  unfold delete_by_key
  split
  · rename_i item hit
    rw [hlook] at hit
    cases hit
  · rfl

theorem delete_by_key_some {key : K} (hk : h.get_by_key key = some x) :
    (h.delete_by_key key).2 = .ok x := by
  unfold delete_by_key
  split
  · rename_i item hit
    have hres := (HeapData.remove_at_spec less_fn h.positions
      ((h.positions item.index key).mpr ⟨item, hit, rfl⟩)).2.1
    simp only [hres]
    rw [show h.obj key = some x from hk]
    rfl
  · rename_i hit
    rw [get_by_key, HeapData.obj, hit] at hk
    cases hk

theorem get_by_key_delete_by_key (key k : K) :
    (h.delete_by_key key).1.get_by_key k = if k = key then none else h.get_by_key k := by
  unfold delete_by_key
  split
  · rename_i item hit
    exact (HeapData.remove_at_spec less_fn h.positions
      ((h.positions item.index key).mpr ⟨item, hit, rfl⟩)).2.2.1 k
  · rename_i hit
    split_ifs with hk
    · rw [hk, get_by_key, HeapData.obj, hit]; rfl
    · rfl

/-- `pop` either finds the heap empty or removes one stored object. -/
theorem pop_cases :
    (h.len = 0 ∧ h.pop = (h, .error "heap is empty")) ∨
    (∃ x, h.get_by_key (key_fn x) = some x ∧ h.pop.2 = .ok x ∧
      (∀ k, h.pop.1.get_by_key k = if k = key_fn x then none else h.get_by_key k) ∧
      h.pop.1.len + 1 = h.len) := by
  cases hq : h.queue[0]? with
  | none =>
    refine .inl ⟨?_, ?_⟩
    · exact Nat.le_zero.mp (getElem?_eq_none_iff.mp hq)
    · unfold pop
      split
      · rfl
      · rename_i key hkey
        rw [hq] at hkey
        cases hkey
  | some key =>
    obtain ⟨item, hit, hidx⟩ := (h.positions 0 key).mp hq
    have hobj : h.obj key = some item.obj := by rw [HeapData.obj, hit]; rfl
    have hkey : key_fn item.obj = key := h.keyed key item.obj hobj
    obtain ⟨_, hres, hget, hlen⟩ := HeapData.remove_at_spec less_fn h.positions hq
    have hpop : h.pop = (h.remove 0 hq, expect (h.remove_at less_fn 0).2) := by
      unfold pop
      split
      · rename_i hnone
        rw [hq] at hnone
        cases hnone
      · rfl
    refine .inr ⟨item.obj, ?_, ?_, ?_, ?_⟩
    · rw [hkey]; exact hobj
    · rw [hpop]
      simp only [hres, hobj]
      rfl
    · intro k
      rw [hpop, hkey]
      exact hget k
    · rw [hpop]
      exact hlen

end Heap

end Scheduler
