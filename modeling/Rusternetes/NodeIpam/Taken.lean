import Mathlib
import Rusternetes.NodeIpam.Blocks

/-! # Taken Blocks

    What the calls so far leave taken: a CIDR that was returned or occupied takes every
    block it overlaps, until a release of a CIDR that overlaps the block. The bitmap
    records exactly that, and the counter its size; so what is handed out next overlaps
    nothing that is still taken.
-/

open Framework Allocator Finset Nat

namespace NodeIpam

/-! ### One bit -/

namespace CidrSetInner

variable (s : CidrSetInner)

@[simp]
theorem allocated_set_bit (i : Nat) (on : Bool) : (s.set_bit i on).allocated = s.allocated := by
  unfold set_bit
  dsimp only
  split_ifs <;> rfl

@[simp]
theorem next_candidate_set_bit (i : Nat) (on : Bool) :
    (s.set_bit i on).next_candidate = s.next_candidate := by
  unfold set_bit
  dsimp only
  split_ifs <;> rfl

theorem bit_set_bit (i j : Nat) (on : Bool) :
    (s.set_bit i on).bit j = if j = i then on else s.bit j := by
  unfold set_bit bit
  cases on with
  | true => exact AllocationBitmap.bit_set_on s.used i j
  | false =>
    rw [if_neg Bool.false_ne_true, ← AllocationBitmap.bit_clear]
    split
    · next hlen => rw [List.set_eq_of_length_le hlen]
    · rfl

/-- The bits below a bound that are set. -/
def marked (max : Nat) : Finset Nat := (Finset.range max).filter fun i => s.bit i = true

variable {s}

theorem mem_marked {max i : Nat} : i ∈ s.marked max ↔ i < max ∧ s.bit i = true := by
  rw [marked, mem_filter, mem_range]

theorem marked_set_on {max i : Nat} (hi : i < max) :
    (s.set_bit i true).marked max = insert i (s.marked max) := by
  ext j
  rw [mem_insert, mem_marked, mem_marked, bit_set_bit]
  by_cases hj : j = i
  · simp [hj, hi]
  · simp [hj]

theorem marked_set_off {max : Nat} (i : Nat) :
    (s.set_bit i false).marked max = (s.marked max).erase i := by
  ext j
  rw [mem_erase, mem_marked, mem_marked, bit_set_bit]
  by_cases hj : j = i
  · simp [hj]
  · simp [hj]

end CidrSetInner

/-! ### The counter -/

namespace CidrSet

open CidrSetInner

/-- The counter is right, and the next candidate is a block. -/
structure Sound (max : Nat) (s : CidrSetInner) : Prop where
  allocated : s.allocated = (s.marked max).card
  next_lt : s.next_candidate < max

variable {max : Nat} {s : CidrSetInner}

/-- The counter is at the bound exactly if every block is taken. -/
theorem Sound.full_iff (h : Sound max s) : s.allocated = max ↔ ∀ i < max, s.bit i = true := by
  have hall := card_filter_eq_iff (s := range max) (p := fun i => s.bit i = true)
  rw [card_range, ← marked, ← h.allocated] at hall
  simpa using hall

theorem Sound.take (h : Sound max s) {i : Nat} (hi : i < max) (hfree : s.bit i = false) :
    Sound max { s.set_bit i true with allocated := s.allocated + 1 } := by
  constructor
  · have hnot : i ∉ s.marked max := fun hmem =>
      absurd ((mem_marked.mp hmem).2.symm.trans hfree) (by decide)
    have hcard := card_insert_of_notMem hnot
    rw [← marked_set_on hi, ← h.allocated] at hcard
    exact hcard.symm
  · exact (next_candidate_set_bit s i true).symm ▸ h.next_lt

theorem bit_set_on (s : CidrSetInner) (i j : Nat) :
    (s.set_bit i true).bit j = (s.bit j || decide (j = i)) := by
  rw [bit_set_bit]
  by_cases hj : j = i <;> simp [hj]

theorem bit_set_bit_of_eq {i : Nat} {on : Bool} (h : s.bit i = on) (j : Nat) :
    s.bit j = (s.set_bit i on).bit j := by
  rw [bit_set_bit]
  split_ifs with hj
  · rw [hj, h]
  · rfl

theorem bit_occupy_index (s : CidrSetInner) (i j : Nat) :
    (occupy_index s i).bit j = (s.set_bit i true).bit j := by
  unfold occupy_index
  split_ifs with hbit
  · rfl
  · exact bit_set_bit_of_eq (by simpa using hbit) j

theorem bit_release_index (s : CidrSetInner) (i j : Nat) :
    (release_index s i).bit j = (s.set_bit i false).bit j := by
  unfold release_index
  split_ifs with hbit
  · rfl
  · exact bit_set_bit_of_eq (by simpa using hbit) j

theorem Sound.occupy_index (h : Sound max s) {i : Nat} (hi : i < max) :
    Sound max (occupy_index s i) := by
  unfold CidrSet.occupy_index
  split_ifs with hbit
  · have htake := h.take hi (by simpa using hbit)
    simpa using htake
  · exact h

theorem Sound.release_index (h : Sound max s) (i : Nat) (hi : i < max) :
    Sound max (release_index s i) := by
  unfold CidrSet.release_index
  split_ifs with hbit
  · constructor
    · have hcard := card_erase_of_mem (mem_marked.mpr ⟨hi, hbit⟩)
      rw [← marked_set_off, ← h.allocated] at hcard
      show (s.set_bit i false).allocated - 1 = _
      rw [allocated_set_bit, ← hcard]
      rfl
    · exact (next_candidate_set_bit s i false).symm ▸ h.next_lt
  · exact h

/-! ### The loops -/

theorem bit_foldl {f : CidrSetInner → Nat → CidrSetInner} {on : Bool}
    (hf : ∀ s i j, (f s i).bit j = (s.set_bit i on).bit j) (l : List Nat) (s : CidrSetInner)
    (j : Nat) : (l.foldl f s).bit j = if j ∈ l then on else s.bit j := by
  induction l generalizing s with
  | nil => rfl
  | cons i l ih =>
    rw [List.foldl_cons, ih, hf, bit_set_bit]
    by_cases hl : j ∈ l <;> by_cases hj : j = i <;> simp [hl, hj]

theorem Sound.foldl {f : CidrSetInner → Nat → CidrSetInner}
    (hf : ∀ s i, Sound max s → i < max → Sound max (f s i)) (l : List Nat)
    (hl : ∀ i ∈ l, i < max) (h : Sound max s) : Sound max (l.foldl f s) :=
  List.foldlRecOn l f h fun s h i hi => hf s i h (hl i hi)

/-! ### The operations -/

theorem scan_spec (set : CidrSet) (s : CidrSetInner) (tries : Nat) {candidate : Nat}
    (hlt : candidate < set.max_cidrs) :
    set.scan s tries candidate < set.max_cidrs ∧
      (s.bit (set.scan s tries candidate) = false ∨
        ∀ j < tries, s.bit ((candidate + j) % set.max_cidrs) = true) := by
  induction tries generalizing candidate with
  | zero => exact ⟨hlt, .inr fun j hj => absurd hj (not_lt_zero j)⟩
  | succ tries ih =>
    unfold scan
    split_ifs with hbit
    · exact ⟨hlt, .inl (by simpa using hbit)⟩
    · obtain ⟨hscan, hspec⟩ := ih (mod_lt (candidate + 1) set.max_cidrs_pos)
      refine ⟨hscan, hspec.imp_right ?_⟩
      intro hall j hj
      cases j with
      | zero =>
        rw [add_zero, mod_eq_of_lt hlt]
        simpa using hbit
      | succ j =>
        have hseen := hall j (lt_of_succ_lt_succ hj)
        rw [mod_add_mod] at hseen
        rw [add_comm j 1, ← add_assoc]
        exact hseen

theorem scan_free (set : CidrSet) (s : CidrSetInner) {candidate i : Nat}
    (hlt : candidate < set.max_cidrs) (hi : i < set.max_cidrs) (hfree : s.bit i = false) :
    s.bit (set.scan s set.max_cidrs candidate) = false := by
  rcases (set.scan_spec s set.max_cidrs hlt).2 with hscan | hall
  · exact hscan
  · have hsum : candidate + (i + set.max_cidrs - candidate) = i + set.max_cidrs := by omega
    have hseen := hall _ (mod_lt (i + set.max_cidrs - candidate) set.max_cidrs_pos)
    rw [add_mod_mod, hsum, add_mod_right, mod_eq_of_lt hi] at hseen
    nomatch hseen.symm.trans hfree

variable (set : CidrSet)

/-- **Allocation**: it takes a free block, unless there is none. -/
theorem allocate_next_spec (h : Sound set.max_cidrs set.inner) :
    (set.allocate_next = .error .NoCidrsRemaining ∧ ∀ i < set.max_cidrs, set.inner.bit i = true) ∨
      ∃ i < set.max_cidrs, set.inner.bit i = false ∧ ∃ s, Sound set.max_cidrs s ∧
        set.allocate_next = .ok (set.index_to_cidr_block i, { set with inner := s }) ∧
        ∀ j, s.bit j = (set.inner.bit j || decide (j = i)) := by
  unfold allocate_next
  dsimp only
  by_cases hfull : set.inner.allocated = set.max_cidrs
  · exact .inl ⟨if_pos hfull, h.full_iff.mp hfull⟩
  · right
    obtain ⟨i, hi, hfree⟩ : ∃ i < set.max_cidrs, set.inner.bit i = false := by
      simpa using mt h.full_iff.mpr hfull
    have hlt := (set.scan_spec set.inner set.max_cidrs h.next_lt).1
    have hfound := set.scan_free set.inner h.next_lt hi hfree
    generalize set.scan set.inner set.max_cidrs set.inner.next_candidate = found at hlt hfound
    refine ⟨found, hlt, hfound, _, ?_, if_neg hfull, ?_⟩
    · have hnext : Sound set.max_cidrs
          { set.inner with next_candidate := (found + 1) % set.max_cidrs } :=
        ⟨h.allocated, mod_lt _ set.max_cidrs_pos⟩
      have htake := hnext.take hlt hfound
      simpa using htake
    · exact bit_set_on { set.inner with next_candidate := (found + 1) % set.max_cidrs } found

/-- What a call leaves, also if it fails. -/
def left_by (r : Except CidrSetError CidrSet) : CidrSet := r.toOption.getD set

theorem exists_overlapped (cidr : IpNet) :
    ∃ l : List Nat, (∀ i ∈ l, i < set.max_cidrs) ∧
      (∀ i < set.max_cidrs,
        i ∈ l ↔ ¬Disjoint cidr.addresses (set.index_to_cidr_block i).addresses) ∧
      ∀ f, set.left_by (do
        let bounds ← set.get_indices cidr
        .ok { set with inner := (indices bounds).foldl f set.inner }) =
          { set with inner := l.foldl f set.inner } := by
  rcases set.get_indices_spec cidr with ⟨e, herror, hdisjoint⟩ | ⟨bounds, hok, hlt, hspec⟩
  · refine ⟨[], by simp, ?_, ?_⟩
    · intro i hi
      simp [hdisjoint.mono_right (set.block_subset hi)]
    · intro f
      rw [herror]
      rfl
  · refine ⟨indices bounds, fun i hi => lt_of_le_of_lt (mem_indices.mp hi).2 hlt, hspec, ?_⟩
    intro f
    rw [hok]
    rfl

/-- **Occupying** takes the blocks that a CIDR overlaps. -/
theorem occupy_spec (h : Sound set.max_cidrs set.inner) (cidr : IpNet) :
    ∃ s, Sound set.max_cidrs s ∧ set.left_by (set.occupy cidr) = { set with inner := s } ∧
      ∀ i < set.max_cidrs, s.bit i = true ↔ set.inner.bit i = true ∨
        ¬Disjoint cidr.addresses (set.index_to_cidr_block i).addresses := by
  obtain ⟨l, hl, hspec, hleft⟩ := set.exists_overlapped cidr
  refine ⟨_, Sound.foldl (fun s i hs hi => hs.occupy_index hi) l hl h, hleft _, ?_⟩
  intro i hi
  rw [bit_foldl bit_occupy_index, ← hspec i hi]
  by_cases hmem : i ∈ l <;> simp [hmem]

/-- **Releasing** frees the blocks that a CIDR overlaps. -/
theorem release_spec (h : Sound set.max_cidrs set.inner) (cidr : IpNet) :
    ∃ s, Sound set.max_cidrs s ∧ set.left_by (set.release cidr) = { set with inner := s } ∧
      ∀ i < set.max_cidrs, s.bit i = true ↔ set.inner.bit i = true ∧
        Disjoint cidr.addresses (set.index_to_cidr_block i).addresses := by
  obtain ⟨l, hl, hspec, hleft⟩ := set.exists_overlapped cidr
  refine ⟨_, Sound.foldl (fun s i hs hi => hs.release_index i hi) l hl h, hleft _, ?_⟩
  intro i hi
  rw [bit_foldl bit_release_index, ← not_not (a := Disjoint _ _), ← hspec i hi]
  by_cases hmem : i ∈ l <;> simp [hmem]

end CidrSet

/-! ### Runs -/

inductive Call where
  | allocate_next
  | occupy (cidr : IpNet)
  | release (cidr : IpNet)

/-- What was done with a CIDR: it was returned or occupied, or it was released. -/
inductive Event where
  | took (cidr : IpNet)
  | released (cidr : IpNet)

/-- A block is held: some CIDR that overlaps it was taken, and none that does was released
    since. Events are listed from the newest on. -/
def Held (history : List Event) (block : IpNet) : Prop :=
  ∃ after cidr before, history = after ++ .took cidr :: before ∧
    ¬Disjoint cidr.addresses block.addresses ∧
    ∀ d, .released d ∈ after → Disjoint d.addresses block.addresses

theorem not_held_nil (block : IpNet) : ¬Held [] block := by
  intro ⟨after, cidr, before, heq, _⟩
  simp at heq

theorem held_cons {e : Event} {block : IpNet} {history : List Event} :
    Held (e :: history) block ↔
      (∃ cidr, e = .took cidr ∧ ¬Disjoint cidr.addresses block.addresses) ∨
        (∀ d, e = .released d → Disjoint d.addresses block.addresses) ∧ Held history block := by
  constructor
  · intro ⟨after, cidr, before, heq, hoverlap, hafter⟩
    cases after with
    | nil => exact .inl ⟨cidr, (List.cons.inj heq).1, hoverlap⟩
    | cons e' after =>
      obtain ⟨rfl, htail⟩ := List.cons.inj heq
      exact .inr ⟨fun d hd => hafter d (hd ▸ .head _), after, cidr, before, htail, hoverlap,
        fun d hd => hafter d (.tail _ hd)⟩
  · rintro (⟨cidr, rfl, hoverlap⟩ | ⟨hhead, after, cidr, before, rfl, hoverlap, hafter⟩)
    · exact ⟨[], cidr, history, rfl, hoverlap, nofun⟩
    · refine ⟨e :: after, cidr, before, rfl, hoverlap, ?_⟩
      intro d hd
      rcases List.mem_cons.mp hd with h | h
      · exact hhead d h.symm
      · exact hafter d h

theorem held_took {cidr block : IpNet} {history : List Event} :
    Held (.took cidr :: history) block ↔
      ¬Disjoint cidr.addresses block.addresses ∨ Held history block := by
  simp [held_cons]

theorem held_released {cidr block : IpNet} {history : List Event} :
    Held (.released cidr :: history) block ↔
      Disjoint cidr.addresses block.addresses ∧ Held history block := by
  simp [held_cons]

namespace CidrSet

open CidrSetInner

def call (r : CidrSet × List Event) : Call → CidrSet × List Event
  | .allocate_next =>
    match r.1.allocate_next with
    | .ok (cidr, set) => (set, .took cidr :: r.2)
    | .error _ => r
  | .occupy cidr => (r.1.left_by (r.1.occupy cidr), .took cidr :: r.2)
  | .release cidr => (r.1.left_by (r.1.release cidr), .released cidr :: r.2)

def run (set : CidrSet) (calls : List Call) : CidrSet × List Event := calls.foldl call (set, [])

structure Records (set : CidrSet) (r : CidrSet × List Event) : Prop where
  fixed : r.1 = { set with inner := r.1.inner }
  sound : Sound set.max_cidrs r.1.inner
  held : ∀ i < set.max_cidrs, r.1.inner.bit i = true ↔ Held r.2 (set.index_to_cidr_block i)

theorem records_new {set : CidrSet} {cluster : IpNet} {node_mask : Nat}
    (h : CidrSet.new cluster node_mask = .ok set) :
    set.cluster = cluster ∧ Records set (set, []) := by
  unfold CidrSet.new at h
  split_ifs at h
  cases h
  have hbit : ∀ i, ({} : CidrSetInner).bit i = false := fun i => by
    simp [CidrSetInner.bit, Words.bit]
  refine ⟨rfl, rfl, ⟨?_, max_cidrs_pos _⟩, ?_⟩
  · have hempty : ({} : CidrSetInner).marked (1 <<< (node_mask - cluster.prefix_len)) = ∅ := by
      ext i
      rw [mem_marked]
      simp [hbit]
    exact (congrArg card hempty).symm
  · intro i _
    constructor
    · intro h
      cases (hbit i).symm.trans h
    · intro h
      exact absurd h (not_held_nil _)

variable {set : CidrSet}

/-- **A call keeps the record.** -/
theorem Records.call {r : CidrSet × List Event} (h : Records set r) (c : Call) :
    Records set (CidrSet.call r c) := by
  obtain ⟨⟨cluster, mask, max, inner, _, _, _⟩, history⟩ := r
  obtain ⟨hfixed, hsound, hheld⟩ := h
  dsimp only at hfixed hsound hheld
  rw [hfixed]
  cases c with
  | allocate_next =>
    unfold CidrSet.call
    rcases allocate_next_spec { set with inner := inner } hsound with
      ⟨herror, -⟩ | ⟨i, hi, -, s, hs, hok, hbits⟩
    · rw [herror]
      exact ⟨rfl, hsound, hheld⟩
    · rw [hok]
      refine ⟨rfl, hs, ?_⟩
      intro j hj
      rw [hbits, Bool.or_eq_true, hheld j hj, held_took, decide_eq_true_iff, or_comm]
      exact or_congr_left (overlap_block_iff _ hi hj).symm
  | occupy cidr =>
    obtain ⟨s, hs, hleft, hbits⟩ := occupy_spec { set with inner := inner } hsound cidr
    unfold CidrSet.call
    dsimp only
    rw [hleft]
    refine ⟨rfl, hs, ?_⟩
    intro j hj
    rw [hbits j hj, hheld j hj, held_took, or_comm]
    rfl
  | release cidr =>
    obtain ⟨s, hs, hleft, hbits⟩ := release_spec { set with inner := inner } hsound cidr
    unfold CidrSet.call
    dsimp only
    rw [hleft]
    refine ⟨rfl, hs, ?_⟩
    intro j hj
    rw [hbits j hj, hheld j hj, held_released, and_comm]
    rfl

/-- **So does a run.** -/
theorem Records.run {r : CidrSet × List Event} (h : Records set r) (calls : List Call) :
    Records set (calls.foldl CidrSet.call r) :=
  List.foldlRecOn calls _ h fun _ h c _ => h.call c

/-- **Blocks are not handed out twice.** After any calls, a block that `allocate_next` returns
    lies in the cluster CIDR and overlaps a CIDR that was returned or occupied before only
    if a CIDR that overlaps the block was released since; it fails exactly if every block is
    held; and the counter is the number of blocks held. -/
theorem allocate_next_disjoint {cluster : IpNet} {node_mask : Nat}
    (hnew : CidrSet.new cluster node_mask = .ok set) (calls : List Call) :
    (∀ block set', (set.run calls).1.allocate_next = .ok (block, set') →
      block.addresses ⊆ cluster.addresses ∧
      ∀ after cidr before, (set.run calls).2 = after ++ .took cidr :: before →
        (∀ d, .released d ∈ after → Disjoint d.addresses block.addresses) →
        Disjoint cidr.addresses block.addresses) ∧
    ((∃ e, (set.run calls).1.allocate_next = .error e) ↔
      ∀ i < set.max_cidrs, Held (set.run calls).2 (set.index_to_cidr_block i)) ∧
    (set.run calls).1.allocated =
      {i | i < set.max_cidrs ∧ Held (set.run calls).2 (set.index_to_cidr_block i)}.ncard := by
  obtain ⟨rfl, hstart⟩ := records_new hnew
  have hrun : Records set (set.run calls) := hstart.run calls
  generalize set.run calls = r at hrun
  obtain ⟨⟨cluster, mask, max, inner, _, _, _⟩, history⟩ := r
  obtain ⟨hfixed, hsound, hheld⟩ := hrun
  rw [hfixed]
  have hspec := allocate_next_spec { set with inner := inner } hsound
  refine ⟨?_, ?_, ?_⟩
  · intro block set' hblock
    rcases hspec with ⟨herror, -⟩ | ⟨i, hi, hfree, s, -, hok, -⟩
    · nomatch herror.symm.trans hblock
    · cases hok.symm.trans hblock
      refine ⟨block_subset set hi, ?_⟩
      intro after cidr before hhistory hafter
      by_contra hoverlap
      have hbit := (hheld i hi).mpr ⟨after, cidr, before, hhistory, hoverlap, hafter⟩
      nomatch hbit.symm.trans hfree
  · constructor
    · intro ⟨e, he⟩ i hi
      rcases hspec with ⟨-, hall⟩ | ⟨i, hi, hfree, s, -, hok, -⟩
      · exact (hheld i hi).mp (hall i hi)
      · nomatch hok.symm.trans he
    · intro hall
      rcases hspec with ⟨herror, -⟩ | ⟨i, hi, hfree, s, -, hok, -⟩
      · exact ⟨_, herror⟩
      · nomatch ((hheld i hi).mpr (hall i hi)).symm.trans hfree
  · have hset : {i | i < set.max_cidrs ∧ Held history (set.index_to_cidr_block i)} =
        (inner.marked set.max_cidrs : Set Nat) := by
      ext i
      rw [mem_coe, mem_marked]
      exact and_congr_right fun hi => (hheld i hi).symm
    rw [hset, Set.ncard_coe_finset]
    exact hsound.allocated

end CidrSet

namespace Sample

/-- `10.0.0.0/24`. -/
def cluster : IpNet := ⟨.v4, 167772160, 24, by decide, by decide⟩

/-- `10.0.0.1/32`. -/
def host : IpNet := ⟨.v4, 167772161, 32, by decide, by decide⟩

end Sample

/-- A release of one address frees the block around it: the block is handed out again, and
    an address of it was handed out before and never released. -/
theorem part_released_block_returned :
    ∃ set, CidrSet.new Sample.cluster 24 = .ok set ∧
      (set.run [.allocate_next, .release Sample.host]).2 =
        [.released Sample.host, .took Sample.cluster] ∧
      (∃ set', (set.run [.allocate_next, .release Sample.host]).1.allocate_next =
        .ok (Sample.cluster, set')) ∧
      (Family.v4, 167772162) ∈ Sample.cluster.addresses ∧
      (Family.v4, 167772162) ∉ Sample.host.addresses := by
  refine ⟨_, rfl, rfl, ⟨_, rfl⟩, ⟨rfl, by decide⟩, ?_⟩
  intro h
  nomatch h.2

/-- The second block of a `/23` is returned after the first. -/
theorem second_block_disjoint :
    ∃ set, CidrSet.new ⟨.v4, 167772160, 23, by decide, by decide⟩ 24 = .ok set ∧
      ∃ block set', (set.run [.allocate_next]).1.allocate_next = .ok (block, set') ∧
        Disjoint Sample.cluster.addresses block.addresses := by
  have hnew : CidrSet.new ⟨.v4, 167772160, 23, by decide, by decide⟩ 24 = .ok _ := rfl
  refine ⟨_, hnew, _, _, rfl, ?_⟩
  exact ((CidrSet.allocate_next_disjoint hnew [.allocate_next]).1 _ _ rfl).2 [] Sample.cluster []
    rfl nofun

end NodeIpam
