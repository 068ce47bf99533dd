import Rusternetes.Deployments.Availability

/-! # The Surge of a Rolling Update

    Every branch of a reconcile writes counts that were worked out from one listing. What
    the branch leaves is said by the count it gives to each listed ReplicaSet, and the
    bound on the sum is read off from these counts. The bound and the sum before are
    taken to be in the range of `i32`; then so is everything that is computed from them.
-/

open List

namespace Deployments

open Framework

/-! ### Counts of the listed ReplicaSets -/

/-- The Deployment's ReplicaSets are the listed ones, with the counts `f`. -/
def Shows (d : Deployment) (owned : List ReplicaSet) (f : ReplicaSet → Int32) (w : World) : Prop :=
  counts d w = owned.map fun rs => (rs.name, f rs)

section shows

variable {d : Deployment} {owned : List ReplicaSet} {f : ReplicaSet → Int32} {w : World}
  (h : Shows d owned f w)

include h

theorem Shows.total_eq : total d w = (owned.map fun rs => (f rs).toInt).sum := by
  rw [total_eq_counts, h, map_map]
  rfl

theorem Shows.nodup : (owned.map ReplicaSet.name).Nodup := by
  have hnodup := nodup_counts (d := d) (w := w)
  rw [h, map_map] at hnodup
  exact hnodup

theorem Shows.scale (g : String → Int32 → Int32) :
    Shows d owned (fun rs => g rs.name (f rs)) (w.scale g) := by
  unfold Shows
  rw [counts_scale, h, map_map]
  rfl

theorem Shows.congr {f' : ReplicaSet → Int32} (hf : ∀ rs ∈ owned, f rs = f' rs) :
    Shows d owned f' w := by
  unfold Shows
  rw [h]
  exact map_congr_left fun rs hrs => by rw [hf rs hrs]

theorem Shows.update (rs : ReplicaSet) (n : Int32) :
    Shows d owned (fun r => if r.name = rs.name then n else f r)
      (update_replicaset_replicas w rs n) := by
  rw [update_eq_scale]
  exact h.scale _

omit h in
theorem sum_split {a : ReplicaSet} (hnodup : (owned.map ReplicaSet.name).Nodup) (ha : a ∈ owned)
    (f : ReplicaSet → Int) : (owned.map f).sum = f a + ((old_of owned a.name).map f).sum := by
  classical
  -- the others are the list without the one
  have hold : old_of owned a.name = owned.erase a := by
    rw [hnodup.of_map.erase_eq_filter, old_of]
    refine filter_congr fun r hr => ?_
    rw [Bool.eq_iff_iff, decide_eq_true_iff, bne_iff_ne, not_iff_not]
    exact ⟨inj_on_of_nodup_map hnodup hr ha, congrArg _⟩
  rw [hold, sum_map_erase f ha]

end shows

/-! ### Distributing a scaling event -/

def final (updates : List (String × Int32)) (rs : ReplicaSet) : Int32 :=
  (updates.lookup rs.name).getD rs.replicas

section distribute

variable (p : Platform) (allowed_size all_rs_replicas replicas_to_add : Int32)

/-- No ReplicaSet would fall below zero by what it loses. -/
def unclipped : List ReplicaSet → Int32 → Bool
  | [], _ => true
  | rs :: rest, added =>
    if rs.replicas = 0 then unclipped rest added
    else
      let proportion := proportion p allowed_size all_rs_replicas replicas_to_add added rs
      decide (0 ≤ rs.replicas + proportion) && unclipped rest (added + proportion)

end distribute

section distribute

variable {p : Platform} {size total excess : Int32}

theorem distribute_cons (rs : ReplicaSet) (rest : List ReplicaSet) (added : Int32) :
    ∃ x, (rs.replicas = 0 ∧ x = 0 ∨
        rs.replicas ≠ 0 ∧ x = proportion p size total excess added rs) ∧
      distribute p size total excess (rs :: rest) added =
        ((distribute p size total excess rest (added + x)).1,
          (if max (rs.replicas + x) 0 ≠ rs.replicas then [(rs.name, max (rs.replicas + x) 0)] else []) ++
            (distribute p size total excess rest (added + x)).2) := by
  rw [distribute]
  split_ifs with hzero
  · refine ⟨0, .inl ⟨hzero, rfl⟩, ?_⟩
    rw [hzero, if_neg (by decide), Int32.add_zero, nil_append]
  · refine ⟨_, .inr ⟨hzero, rfl⟩, ?_⟩
    simp only
    split_ifs <;> rfl

theorem distribute_names (rss : List ReplicaSet) (added : Int32) :
    ((distribute p size total excess rss added).2.map Prod.fst).Sublist
      (rss.map ReplicaSet.name) := by
  induction rss generalizing added with
  | nil => exact Sublist.slnil
  | cons rs rest ih =>
    obtain ⟨x, -, h⟩ := distribute_cons rs rest added
    rw [h, map_append, map_cons]
    split_ifs
    · exact (ih _).cons_cons _
    · exact (ih _).cons _

variable {rss : List ReplicaSet}

theorem distribute_lookup_none {name : String} (h : name ∉ rss.map ReplicaSet.name)
    (added : Int32) : (distribute p size total excess rss added).2.lookup name = none :=
  Assoc.lookup_eq_none fun hmem => h ((distribute_names rss added).subset hmem)

theorem distribute_nonneg (rss : List ReplicaSet) (added : Int32) :
    ∀ u ∈ (distribute p size total excess rss added).2, 0 ≤ u.2.toInt := by
  induction rss generalizing added with
  | nil => exact forall_mem_nil _
  | cons rs rest ih =>
    obtain ⟨x, -, h⟩ := distribute_cons rs rest added
    rw [h]
    refine forall_mem_append.mpr ⟨?_, ih _⟩
    split_ifs
    · rw [forall_mem_singleton, I32.toInt_max]
      exact le_max_right _ _
    · exact forall_mem_nil _

theorem final_cons (name : String) (v : Int32) (rest : List (String × Int32)) (rs : ReplicaSet) :
    final ((name, v) :: rest) rs = if rs.name = name then v else final rest rs := by
  rw [final, Assoc.lookup_cons]
  split_ifs <;> rfl

variable (p size total excess)

/-- **What one ReplicaSet gets, and what the others get.** -/
theorem final_distribute_cons {rs : ReplicaSet} {rest : List ReplicaSet}
    (hnodup : ((rs :: rest).map ReplicaSet.name).Nodup) (added : Int32) :
    ∃ x, (rs.replicas = 0 ∧ x = 0 ∨
        rs.replicas ≠ 0 ∧ x = proportion p size total excess added rs) ∧
      (distribute p size total excess (rs :: rest) added).1 =
        (distribute p size total excess rest (added + x)).1 ∧
      final (distribute p size total excess (rs :: rest) added).2 rs =
        max (rs.replicas + x) 0 ∧
      ∀ r ∈ rest,
        final (distribute p size total excess (rs :: rest) added).2 r =
          final (distribute p size total excess rest (added + x)).2 r := by
  obtain ⟨hnot, -⟩ := nodup_cons.mp hnodup
  obtain ⟨x, hx, h⟩ := distribute_cons rs rest added
  refine ⟨x, hx, ?_⟩
  rw [h]
  refine ⟨rfl, ?_, ?_⟩
  · split_ifs with hchanged
    · rw [singleton_append, final_cons, if_pos rfl]
    · rw [nil_append, final, distribute_lookup_none hnot]
      exact (not_not.mp hchanged).symm
  · intro r hr
    split_ifs
    · rw [singleton_append, final_cons, if_neg]
      intro heq
      exact hnot (mem_map.mpr ⟨r, hr, heq⟩)
    · rfl

theorem proportion_bounds (rs : ReplicaSet) {added : Int32}
    (hadded : min excess.toInt 0 ≤ added.toInt ∧ added.toInt ≤ max excess.toInt 0) :
    let x := (proportion p size total excess added rs).toInt
    (0 < excess.toInt → 0 ≤ x) ∧ (excess.toInt ≤ 0 → x ≤ 0) ∧
      min excess.toInt 0 ≤ added.toInt + x ∧ added.toInt + x ≤ max excess.toInt 0 := by
  have hexcess := I32.fits_toInt excess
  have hallowed : (excess - added).toInt = excess.toInt - added.toInt := by
    unfold I32.Fits at hexcess
    exact I32.toInt_sub_of_fits ⟨by omega, by omega⟩
  unfold proportion
  simp only
  split_ifs with hup
  all_goals
    rw [Int32.lt_iff_toInt_lt, Int32.toInt_zero] at hup
    simp only [I32.toInt_max, I32.toInt_min, hallowed, Int32.toInt_zero]
    omega

/-- **A scaling event**: no more is added or taken than there is to, no count goes up when it
    is to go down, and unless a count is held at zero all of it arrives. -/
theorem distribute_spec (hnodup : (rss.map ReplicaSet.name).Nodup)
    (hnonneg : ∀ rs ∈ rss, 0 ≤ rs.replicas.toInt)
    (hroom : ∀ rs ∈ rss, rs.replicas.toInt + excess.toInt < 2 ^ 31) (added : Int32)
    (hadded : min excess.toInt 0 ≤ added.toInt ∧ added.toInt ≤ max excess.toInt 0) :
    let D := distribute p size total excess rss added
    (min excess.toInt 0 ≤ D.1.toInt ∧ D.1.toInt ≤ max excess.toInt 0) ∧
      (excess.toInt ≤ 0 → ∀ rs ∈ rss, (final D.2 rs).toInt ≤ rs.replicas.toInt) ∧
      (0 < excess.toInt ∨ unclipped p size total excess rss added = true →
        (rss.map fun rs => (final D.2 rs).toInt).sum =
          (rss.map fun rs => rs.replicas.toInt).sum + (D.1.toInt - added.toInt)) := by
  induction rss generalizing added with
  | nil =>
    simp only [distribute, map_nil, sum_nil]
    refine ⟨hadded, fun _ => forall_mem_nil _, fun _ => by omega⟩
  | cons rs rest ih =>
    have hrs := hnonneg rs (.head _)
    have hroom' := hroom rs (.head _)
    have hexcess := I32.fits_toInt excess
    have hreplicas := I32.fits_toInt rs.replicas
    unfold I32.Fits at hexcess hreplicas
    obtain ⟨x, hx, htotal, hself, hrest⟩ :=
      final_distribute_cons p size total excess hnodup added
    have hx' : (0 < excess.toInt → 0 ≤ x.toInt) ∧ (excess.toInt ≤ 0 → x.toInt ≤ 0) ∧
        min excess.toInt 0 ≤ added.toInt + x.toInt ∧ added.toInt + x.toInt ≤ max excess.toInt 0 := by
      rcases hx with ⟨-, rfl⟩ | ⟨-, rfl⟩
      · rw [Int32.toInt_zero]
        omega
      · exact proportion_bounds p size total excess rs hadded
    -- nothing wraps
    have hadd : (added + x).toInt = added.toInt + x.toInt :=
      I32.toInt_add_of_fits ⟨by omega, by omega⟩
    have hnew : (rs.replicas + x).toInt = rs.replicas.toInt + x.toInt :=
      I32.toInt_add_of_fits ⟨by omega, by omega⟩
    have hself' : (final (distribute p size total excess (rs :: rest) added).2 rs).toInt =
        max (rs.replicas.toInt + x.toInt) 0 := by
      rw [hself, I32.toInt_max, hnew, Int32.toInt_zero]
    obtain ⟨hle, hdown, hsum⟩ := ih (nodup_cons.mp hnodup).2
      (fun r hr => hnonneg r (.tail _ hr)) (fun r hr => hroom r (.tail _ hr)) (added + x)
      (by omega)
    dsimp only
    rw [htotal]
    refine ⟨hle, ?_, ?_⟩
    · intro hexcess r hr
      rcases mem_cons.mp hr with rfl | hr
      · omega
      · rw [hrest r hr]
        exact hdown hexcess r hr
    · intro hclip
      have hclip' : 0 ≤ rs.replicas.toInt + x.toInt ∧
          (0 < excess.toInt ∨ unclipped p size total excess rest (added + x) = true) := by
        rcases hclip with hadd | hclip
        · exact ⟨by omega, .inl hadd⟩
        rw [unclipped] at hclip
        rcases hx with ⟨hzero, rfl⟩ | ⟨hne, rfl⟩
        · rw [if_pos hzero] at hclip
          exact ⟨by rw [Int32.toInt_zero]; omega, .inr (by rw [Int32.add_zero]; exact hclip)⟩
        · rw [if_neg hne] at hclip
          obtain ⟨h₁, h₂⟩ := Bool.and_eq_true_iff.mp hclip
          refine ⟨?_, .inr h₂⟩
          rw [← hnew]
          exact Int32.le_iff_toInt_le.mp (of_decide_eq_true h₁)
      have hrest' : (rest.map fun r =>
            (final (distribute p size total excess (rs :: rest) added).2 r).toInt) =
          rest.map fun r => (final (distribute p size total excess rest (added + x)).2 r).toInt :=
        map_congr_left fun r hr => by rw [hrest r hr]
      simp only [map_cons, sum_cons]
      rw [hself', hrest', hsum hclip'.2]
      omega

end distribute

/-! ### Applying the updates -/

section updates

variable {d : Deployment} {owned : List ReplicaSet} {w : World}

theorem shows_apply_updates {updates : List (String × Int32)} (hnodup : (updates.map Prod.fst).Nodup)
    {f : ReplicaSet → Int32} (h : Shows d owned f w) :
    Shows d owned (fun rs => (updates.lookup rs.name).getD (f rs)) (apply_updates owned updates w) := by
  induction updates generalizing f w with
  | nil => exact h
  | cons u rest ih =>
    obtain ⟨hnot, hrest⟩ := nodup_cons.mp hnodup
    rw [apply_updates, foldl_cons]
    have hlookup : rest.lookup u.1 = none := Assoc.lookup_eq_none hnot
    cases hfind : owned.find? fun rs => rs.name = u.1 with
    | none =>
      -- no listed ReplicaSet has the name
      refine (ih hrest h).congr ?_
      intro rs hrs
      have hne : (rs.name == u.1) = false := by
        rw [beq_eq_false_iff_ne]
        exact of_decide_eq_false (by simpa using find?_eq_none.mp hfind rs hrs)
      rw [lookup_cons, hne]
    | some found =>
      have hname := find?_some (p := fun rs : ReplicaSet => decide (rs.name = u.1)) hfind
      have hname' : found.name = u.1 := of_decide_eq_true hname
      refine (ih hrest (h.update found u.2)).congr ?_
      intro rs _
      rw [lookup_cons]
      by_cases hrs : rs.name = u.1
      · rw [beq_iff_eq.mpr hrs, hrs, hlookup, hname']
        simp
      · rw [beq_eq_false_iff_ne.mpr hrs, hname']
        simp [hrs]

/-- Another count for the first of the updates. -/
theorem sum_final_head {name : String} {v v' : Int32} {rest : List (String × Int32)}
    {rss : List ReplicaSet} (hnodup : (rss.map ReplicaSet.name).Nodup)
    (hname : name ∈ rss.map ReplicaSet.name) :
    (rss.map fun rs => (final ((name, v') :: rest) rs).toInt).sum =
      (rss.map fun rs => (final ((name, v) :: rest) rs).toInt).sum + (v'.toInt - v.toInt) := by
  obtain ⟨rs, hrs, rfl⟩ := mem_map.mp hname
  have hother : ∀ r ∈ old_of rss rs.name,
      (final ((rs.name, v') :: rest) r).toInt = (final ((rs.name, v) :: rest) r).toInt := by
    intro r hr
    have hne : r.name ≠ rs.name := of_decide_eq_true (mem_filter.mp hr).2
    rw [final_cons, final_cons, if_neg hne, if_neg hne]
  rw [sum_split hnodup hrs, sum_split hnodup hrs, map_congr_left hother, final_cons,
    final_cons, if_pos rfl, if_pos rfl]
  omega

end updates

/-! ### A proportional scaling event -/

section proportional

variable (p : Platform) (d : Deployment) (owned : List ReplicaSet)

def sum_of (owned : List ReplicaSet) : Int := (owned.map fun rs => rs.replicas.toInt).sum

def surge_bound : Int := d.desired_replicas.toInt + (d.max_surge p).toInt

def to_add : Int32 := d.desired_replicas + d.max_surge p - (owned.map ReplicaSet.replicas).sum

/-- What the distribution starts from. -/
def distributed : Int32 × List (String × Int32) :=
  distribute p (d.desired_replicas + d.max_surge p) (owned.map ReplicaSet.replicas).sum
    (to_add p d owned)
    (owned.insertionSort fun a b => sorts_before (0 < to_add p d owned) a b = true) 0

/-- No count is held at zero: neither by what a ReplicaSet loses nor by the leftover. -/
def scales_freely : Bool :=
  unclipped p (d.desired_replicas + d.max_surge p) (owned.map ReplicaSet.replicas).sum
      (to_add p d owned)
      (owned.insertionSort fun a b => sorts_before (0 < to_add p d owned) a b = true) 0 &&
    (distributed p d owned).2.head?.all fun u =>
      0 ≤ u.2 + (to_add p d owned - (distributed p d owned).1)

theorem proportional_updates_eq : proportional_updates p d owned =
    with_leftover (to_add p d owned - (distributed p d owned).1) (distributed p d owned).2 := by
  have hpos : ∀ u ∈ (distributed p d owned).2, 0 ≤ u.2.toInt := distribute_nonneg _ 0
  have heq : proportional_updates p d owned =
      if to_add p d owned ≠ (distributed p d owned).1 then
        with_leftover (to_add p d owned - (distributed p d owned).1) (distributed p d owned).2
      else (distributed p d owned).2 := rfl
  rw [heq]
  split_ifs with h
  · rfl
  · rw [not_not.mp h, Int32.sub_self]
    cases hups : (distributed p d owned).2 with
    | nil => rfl
    | cons u rest =>
      rw [hups] at hpos
      have hmax : max u.2 0 = u.2 := by
        rw [← Int32.toInt_inj, I32.toInt_max]
        exact max_eq_left (hpos u (.head _))
      rw [with_leftover, Int32.add_zero, hmax]

variable {p d owned}

theorem final_nonneg {updates : List (String × Int32)} (hupdates : ∀ u ∈ updates, 0 ≤ u.2.toInt)
    {rs : ReplicaSet} (hrs : 0 ≤ rs.replicas.toInt) : 0 ≤ (final updates rs).toInt := by
  unfold final
  cases hlookup : updates.lookup rs.name with
  | none => exact hrs
  | some v => exact hupdates _ (Assoc.mem_of_lookup hlookup)

/-- The distribution goes through the ReplicaSets in some order. -/
theorem exists_sorted (p : Platform) (d : Deployment) (owned : List ReplicaSet) :
    ∃ sorted : List ReplicaSet, sorted.Perm owned ∧
      distributed p d owned =
        distribute p (d.desired_replicas + d.max_surge p) (owned.map ReplicaSet.replicas).sum
          (to_add p d owned) sorted 0 ∧
      (scales_freely p d owned = true →
        unclipped p (d.desired_replicas + d.max_surge p) (owned.map ReplicaSet.replicas).sum
            (to_add p d owned) sorted 0 = true ∧
          ∀ u ∈ (distributed p d owned).2.head?,
            0 ≤ u.2 + (to_add p d owned - (distributed p d owned).1)) := by
  refine ⟨_, perm_insertionSort _ owned, rfl, ?_⟩
  intro hfree
  obtain ⟨hclip, hhead⟩ := Bool.and_eq_true_iff.mp hfree
  refine ⟨hclip, ?_⟩
  intro u hu
  rw [Option.mem_def.mp hu] at hhead
  exact of_decide_eq_true hhead

structure InRange (p : Platform) (d : Deployment) (owned : List ReplicaSet) : Prop where
  nonneg : ∀ rs ∈ owned, 0 ≤ rs.replicas.toInt
  desired : 0 ≤ d.desired_replicas.toInt
  surge : 0 ≤ (d.max_surge p).toInt
  bound : surge_bound p d < 2 ^ 31
  sum : sum_of owned < 2 ^ 31

section range

variable (h : InRange p d owned)

include h

theorem InRange.sum_nonneg : 0 ≤ sum_of owned := List.sum_nonneg (forall_mem_map.mpr h.nonneg)

theorem InRange.le_sum {rs : ReplicaSet} (hrs : rs ∈ owned) : rs.replicas.toInt ≤ sum_of owned :=
  single_le_sum (forall_mem_map.mpr h.nonneg) _ (mem_map.mpr ⟨rs, hrs, rfl⟩)

theorem InRange.toInt_bound : (d.desired_replicas + d.max_surge p).toInt = surge_bound p d := by
  have hdesired := h.desired
  have hsurge := h.surge
  have hbound := h.bound
  unfold surge_bound at hbound ⊢
  exact I32.toInt_add_of_fits ⟨by omega, by omega⟩

theorem InRange.toInt_sum : (owned.map ReplicaSet.replicas).sum.toInt = sum_of owned := by
  have hpos := h.sum_nonneg
  have hsum := h.sum
  rw [I32.toInt_sum, map_map]
  exact I32.bmod_eq_self (n := sum_of owned) ⟨by omega, by omega⟩

theorem InRange.toInt_to_add : (to_add p d owned).toInt = surge_bound p d - sum_of owned := by
  have hpos := h.sum_nonneg
  have hsum := h.sum
  have hdesired := h.desired
  have hsurge := h.surge
  have hbound := h.bound
  have heq := h.toInt_bound
  have heq' := h.toInt_sum
  unfold to_add
  unfold surge_bound at *
  rw [I32.toInt_sub_of_fits ⟨by omega, by omega⟩, heq, heq']

/-- **What a proportional scaling event leaves**: counts from zero up whose sum is within
    the bound, and is the bound where no count was held at zero. -/
theorem final_proportional (hnodup : (owned.map ReplicaSet.name).Nodup) :
    let updates := proportional_updates p d owned
    (updates.map Prod.fst).Nodup ∧ (∀ rs ∈ owned, 0 ≤ (final updates rs).toInt) ∧
      (owned.map fun rs => (final updates rs).toInt).sum ≤ max (surge_bound p d) (sum_of owned) ∧
      (updates ≠ [] → scales_freely p d owned = true →
        (owned.map fun rs => (final updates rs).toInt).sum = surge_bound p d) := by
  obtain ⟨sorted, hperm, hdist, hfree⟩ := exists_sorted p d owned
  have hexcess := h.toInt_to_add
  have hnodup' : (sorted.map ReplicaSet.name).Nodup :=
    (hperm.map ReplicaSet.name).nodup_iff.mpr hnodup
  have hnonneg' : ∀ rs ∈ sorted, 0 ≤ rs.replicas.toInt :=
    fun rs hrs => h.nonneg rs (hperm.subset hrs)
  have hroom : ∀ rs ∈ sorted, rs.replicas.toInt + (to_add p d owned).toInt < 2 ^ 31 := by
    intro rs hrs
    have hle := h.le_sum (hperm.subset hrs)
    have hbound := h.bound
    omega
  have hsum : ∀ f : ReplicaSet → Int, (owned.map f).sum = (sorted.map f).sum :=
    fun f => (hperm.map f).sum_eq.symm
  obtain ⟨⟨hmin, hmax⟩, hdown, hall⟩ := distribute_spec p (d.desired_replicas + d.max_surge p)
    (owned.map ReplicaSet.replicas).sum (to_add p d owned) hnodup' hnonneg' hroom 0
    (by rw [Int32.toInt_zero]; omega)
  have hnames : ((distributed p d owned).2.map Prod.fst).Sublist (sorted.map ReplicaSet.name) :=
    hdist ▸ distribute_names sorted 0
  have hpos : ∀ u ∈ (distributed p d owned).2, 0 ≤ u.2.toInt := distribute_nonneg _ 0
  rw [← hdist] at hmin hmax hdown hall
  rw [← hsum fun rs => rs.replicas.toInt, Int32.toInt_zero, sub_zero] at hall
  change _ → _ = sum_of owned + _ at hall
  have hleft : (to_add p d owned - (distributed p d owned).1).toInt =
      (to_add p d owned).toInt - (distributed p d owned).1.toInt := by
    obtain ⟨hlow, hhigh⟩ := I32.fits_toInt (to_add p d owned)
    exact I32.toInt_sub_of_fits ⟨by omega, by omega⟩
  simp only [proportional_updates_eq]
  cases hups : (distributed p d owned).2 with
  | nil => exact ⟨nodup_nil, h.nonneg, le_max_right _ _, absurd rfl⟩
  | cons u rest =>
    obtain ⟨name, v⟩ := u
    rw [hups] at hdown hall hnames hpos hfree
    have hv : 0 ≤ v.toInt := hpos _ (.head _)
    have hhead : ∀ x : Int32, (owned.map fun rs => (final ((name, x) :: rest) rs).toInt).sum =
        (sorted.map fun rs => (final ((name, v) :: rest) rs).toInt).sum + (x.toInt - v.toInt) := by
      intro x
      rw [hsum]
      exact sum_final_head hnodup' (hnames.subset (.head _))
    -- the first count with the leftover does not wrap
    have hlast : (v + (to_add p d owned - (distributed p d owned).1)).toInt =
        v.toInt + ((to_add p d owned).toInt - (distributed p d owned).1.toInt) := by
      obtain ⟨hlow, hhigh⟩ := I32.fits_toInt (to_add p d owned)
      obtain ⟨-, hhigh'⟩ := I32.fits_toInt v
      by_cases hadd : 0 < (to_add p d owned).toInt
      · have hle : v.toInt ≤ (sorted.map fun rs => (final ((name, v) :: rest) rs).toInt).sum := by
          obtain ⟨rs, hrs, hname⟩ := mem_map.mp (hnames.subset (.head _))
          refine single_le_sum ?_ _ (mem_map.mpr ⟨rs, hrs, ?_⟩)
          · exact forall_mem_map.mpr fun r hr => final_nonneg hpos (hnonneg' r hr)
          · rw [final_cons, if_pos hname]
        have hexact := hall (.inl hadd)
        have hbound := h.bound
        rw [I32.toInt_add_of_fits ⟨by omega, by omega⟩, hleft]
      · rw [I32.toInt_add_of_fits ⟨by omega, by omega⟩, hleft]
    refine ⟨hnodup'.sublist hnames, ?_, ?_, ?_⟩
    · intro rs hrs
      refine final_nonneg (forall_mem_cons.mpr ⟨?_, (forall_mem_cons.mp hpos).2⟩) (h.nonneg rs hrs)
      rw [I32.toInt_max]
      exact le_max_right _ _
    · rw [with_leftover, hhead, I32.toInt_max, hlast, Int32.toInt_zero]
      by_cases hadd : 0 < (to_add p d owned).toInt
      · have hexact := hall (.inl hadd)
        omega
      · have hless : (sorted.map fun rs => (final ((name, v) :: rest) rs).toInt).sum ≤
            sum_of owned := by
          rw [sum_of, hsum]
          exact sum_le_sum (hdown (not_lt.mp hadd))
        omega
    · intro _ hfree'
      obtain ⟨hclip, hfirst⟩ := hfree hfree'
      have hexact := hall (.inr hclip)
      have hkept := Int32.le_iff_toInt_le.mp (hfirst (name, v) rfl)
      rw [hlast, Int32.toInt_zero] at hkept
      rw [with_leftover, hhead, I32.toInt_max, hlast, Int32.toInt_zero]
      omega

end range

end proportional

/-! ### Creating and deleting -/

section store

variable {d : Deployment} {w : World}

theorem counts_create (p : Platform) (replicas : Int32) :
    counts d (create_replicaset_with_replicas p d replicas w) = counts d w ∨
      counts d (create_replicaset_with_replicas p d replicas w) =
        counts d w ++ [((new_replicaset p d replicas w).name, replicas)] := by
  unfold create_replicaset_with_replicas Roster.create counts World.owned
  split_ifs
  · exact .inl rfl
  · right
    have hnew : [new_replicaset p d replicas w].filter (fun rs => is_owned_by_deployment rs d) =
        [new_replicaset p d replicas w] := by
      rw [filter_eq_self]
      intro rs hrs
      rw [mem_singleton.mp hrs]
      simp [is_owned_by_deployment, new_replicaset, owner_reference]
    rw [filter_append, hnew, map_append]
    rfl

/-- Only empty ReplicaSets are deleted. -/
theorem counts_cleanup :
    total d (cleanup d w) = total d w ∧ ∀ c ∈ counts d (cleanup d w), c ∈ counts d w := by
  unfold cleanup
  simp only
  split_ifs
  · generalize hdeleted : take _ _ = deleted
    generalize hkeep : (fun rs : ReplicaSet => deleted.all fun gone => gone.name ≠ rs.name) = keep
    -- what is deleted is an empty ReplicaSet
    have hzero : ∀ rs ∈ w.owned d, keep rs = false → rs.replicas = 0 := by
      intro rs hrs hgone
      rw [← hkeep] at hgone
      obtain ⟨gone, hmem, hname⟩ := all_eq_false.mp hgone
      rw [← hdeleted] at hmem
      have hmem' := mem_filter.mp
        ((perm_insertionSort _ _).mem_iff.mp (mem_of_mem_take hmem))
      have heq : gone = rs := by
        refine w.replicasets.eq_of_name (mem_filter.mp hmem'.1).1 (mem_filter.mp hrs).1 ?_
        simpa using hname
      rw [← heq]
      exact of_decide_eq_true (Bool.and_eq_true_iff.mp hmem'.2).2
    have howned : (w.replicasets.items.filter keep).filter (fun rs => is_owned_by_deployment rs d) =
        (w.owned d).filter keep := filter_comm _ _ _
    show ((filter _ (w.replicasets.items.filter keep)).map fun rs => rs.replicas.toInt).sum = _ ∧
      ∀ c ∈ (filter _ (w.replicasets.items.filter keep)).map _, _
    rw [howned]
    unfold total counts
    generalize w.owned d = owned at hzero
    constructor
    · induction owned with
      | nil => rfl
      | cons rs rest ih =>
        have ih' := ih fun r hr => hzero r (.tail _ hr)
        cases hkept : keep rs with
        | true =>
          rw [filter_cons_of_pos hkept, map_cons, map_cons, sum_cons,
            sum_cons, ih']
        | false =>
          rw [filter_cons_of_neg (by simp [hkept]), map_cons, sum_cons, ih',
            hzero rs (.head _) hkept, Int32.toInt_zero, zero_add]
    · intro c hc
      exact (filter_sublist.map _).subset hc
  · exact ⟨rfl, fun _ h => h⟩

end store

/-! ### The rollout -/

/-- The sum of the counts is within a bound, and none is negative. -/
def Within (d : Deployment) (bound : Int) (w : World) : Prop :=
  total d w ≤ bound ∧ ∀ c ∈ counts d w, 0 ≤ c.2.toInt

/-- The new ReplicaSet has a count, the old ones have at most what they were listed with,
    and the pods are as they were. -/
def Drains (d : Deployment) (owned : List ReplicaSet) (active : ReplicaSet) (pods : List Pod)
    (n : Int32) (w : World) : Prop :=
  ∃ f, Shows d owned f w ∧ f active = n ∧
    (∀ rs ∈ old_of owned active.name, 0 ≤ (f rs).toInt ∧ (f rs).toInt ≤ rs.replicas.toInt) ∧
    w.pods = pods

section rollout

variable {p : Platform} {d : Deployment} {owned : List ReplicaSet} {active : ReplicaSet} {w : World}
  {pods : List Pod} {n : Int32} {bound : Int}

theorem Shows.within {f : ReplicaSet → Int32} (h : Shows d owned f w)
    (hnonneg : ∀ rs ∈ owned, 0 ≤ (f rs).toInt)
    (hsum : (owned.map fun rs => (f rs).toInt).sum ≤ bound) : Within d bound w := by
  refine ⟨h.total_eq ▸ hsum, ?_⟩
  rw [h]
  exact forall_mem_map.mpr hnonneg

theorem mem_old_of {rs : ReplicaSet} {name : String} :
    rs ∈ old_of owned name ↔ rs ∈ owned ∧ rs.name ≠ name := by
  rw [old_of, mem_filter, decide_eq_true_iff]

theorem Shows.drains (h : Shows d owned ReplicaSet.replicas w)
    (hnonneg : ∀ rs ∈ owned, 0 ≤ rs.replicas.toInt) :
    Drains d owned active w.pods active.replicas w :=
  ⟨_, h, rfl, fun rs hrs => ⟨hnonneg rs (mem_old_of.mp hrs).1, le_refl _⟩, rfl⟩

section drains

variable (h : Drains d owned active pods n w)

include h

theorem Drains.within (ha : active ∈ owned) (hn : 0 ≤ n.toInt)
    (hbound : n.toInt + sum_of (old_of owned active.name) ≤ bound) : Within d bound w := by
  obtain ⟨f, hshows, hfa, hold, -⟩ := h
  refine hshows.within ?_ ?_
  · intro rs hrs
    by_cases hname : rs.name = active.name
    · rw [inj_on_of_nodup_map hshows.nodup hrs ha hname, hfa]
      exact hn
    · exact (hold rs (mem_old_of.mpr ⟨hrs, hname⟩)).1
  · have hle : ((old_of owned active.name).map fun rs => (f rs).toInt).sum ≤
        sum_of (old_of owned active.name) :=
      sum_le_sum fun rs hrs => (hold rs hrs).2
    rw [sum_split hshows.nodup ha fun rs => (f rs).toInt, hfa]
    omega

theorem Drains.update (m : Int32) :
    Drains d owned active pods m (update_replicaset_replicas w active m) := by
  obtain ⟨f, hshows, -, hold, hpods⟩ := h
  refine ⟨_, hshows.update active m, if_pos rfl, ?_, ?_⟩
  · intro rs hrs
    rw [if_neg (mem_old_of.mp hrs).2]
    exact hold rs hrs
  · rw [update_eq_scale]
    exact hpods

/-- Writing to old ReplicaSets counts that are no higher than what they were listed with. -/
theorem Drains.scale_old {g : String → Int32 → Int32} (hactive : ∀ c, g active.name c = c)
    (hold : ∀ rs ∈ old_of owned active.name, ∀ c : Int32, 0 ≤ c.toInt →
      c.toInt ≤ rs.replicas.toInt →
        0 ≤ (g rs.name c).toInt ∧ (g rs.name c).toInt ≤ rs.replicas.toInt) :
    Drains d owned active pods n (w.scale g) := by
  obtain ⟨f, hshows, hfa, hf, hpods⟩ := h
  refine ⟨_, hshows.scale g, (hactive _).trans hfa, ?_, hpods⟩
  intro rs hrs
  exact hold rs hrs _ (hf rs hrs).1 (hf rs hrs).2

theorem Drains.scale_to_zero (hnonneg : ∀ rs ∈ owned, 0 ≤ rs.replicas.toInt) :
    Drains d owned active pods n (Deployments.scale_to_zero (old_of owned active.name) w) := by
  have hfold := foldl_update (w := w)
    ((old_of owned active.name).filter fun rs => 0 < rs.replicas) fun _ => some 0
  have heq : Deployments.scale_to_zero (old_of owned active.name) w = w.scale fun name c =>
      ((old_of owned active.name).filter fun rs => 0 < rs.replicas).foldl
        (fun c rs => if name = rs.name then 0 else c) c := hfold
  have hcount : ∀ (rss : List ReplicaSet) (name : String) (c : Int32),
      rss.foldl (fun c rs => if name = rs.name then 0 else c) c =
        if ∃ rs ∈ rss, name = rs.name then 0 else c := by
    intro rss name
    induction rss with
    | nil => simp
    | cons rs rest ih =>
      intro c
      rw [foldl_cons, ih]
      by_cases hname : name = rs.name <;> simp [hname]
  rw [heq]
  refine h.scale_old ?_ ?_
  · intro c
    rw [hcount, if_neg]
    rintro ⟨rs, hrs, hname⟩
    exact (mem_old_of.mp (mem_filter.mp hrs).1).2 hname.symm
  · intro rs hrs c hc hle
    rw [hcount]
    split_ifs
    · exact ⟨le_refl _, hnonneg rs (mem_old_of.mp hrs).1⟩
    · exact ⟨hc, hle⟩

theorem Drains.reconcile_old (hcounted : Counted (count_available_pods_min_ready p pods) owned)
    (new_active desired max_unavailable : Int32) :
    Drains d owned active pods n (reconcile_old_replicasets p w owned active.name new_active desired
      max_unavailable) := by
  have hnodup : (owned.map ReplicaSet.name).Nodup := h.choose_spec.1.nodup
  have hpods : w.pods = pods := h.choose_spec.2.2.2
  rw [reconcile_old_eq_scale p w owned hnodup]
  refine h.scale_old ?_ ?_
  · intro c
    rw [find_old]
    rfl
  · intro rs hrs c hc hle
    rw [find_listed (nodup_old active.name hnodup) hrs]
    simp only [Option.bind_some]
    split_ifs
    · rw [Option.getD_some, hpods]
      exact old_targets_down p pods active.name new_active desired max_unavailable hnodup
        (fun r hr => hcounted r (mem_old_of.mp hr).1) hrs
    · exact ⟨hc, hle⟩

end drains

theorem old_rs_total_active (h : active_rs d owned = some active) :
    old_rs_total d owned = ((old_of owned active.name).map ReplicaSet.replicas).sum := by
  unfold old_rs_total old_of
  rw [h]

theorem old_rs_total_none (h : active_rs d owned = none) :
    old_rs_total d owned = (owned.map ReplicaSet.replicas).sum := by
  unfold old_rs_total
  rw [h]
  simp

theorem Within.create {bound' : Int} {m : Int32} (h : Within d bound w) (hm : 0 ≤ m.toInt)
    (hbound : bound ≤ bound') (htotal : total d w + m.toInt ≤ bound') :
    Within d bound' (create_replicaset_with_replicas p d m w) := by
  unfold Within
  rw [total_eq_counts]
  rcases counts_create (d := d) (w := w) p m with heq | heq
  · rw [heq, ← total_eq_counts]
    exact ⟨le_trans h.1 hbound, h.2⟩
  · rw [heq, map_append, sum_append, ← total_eq_counts]
    refine ⟨by simpa using htotal, ?_⟩
    exact forall_mem_append.mpr ⟨h.2, forall_mem_singleton.mpr hm⟩

theorem Within.cleanup (h : Within d bound w) : Within d bound (Deployments.cleanup d w) := by
  obtain ⟨htotal, hcounts⟩ := counts_cleanup (d := d) (w := w)
  exact ⟨htotal ▸ h.1, fun c hc => h.2 c (hcounts c hc)⟩

theorem InRange.old_sum (hrange : InRange p d owned) (hnodup : (owned.map ReplicaSet.name).Nodup)
    (ha : active ∈ owned) :
    ((old_of owned active.name).map ReplicaSet.replicas).sum.toInt =
        sum_of (old_of owned active.name) ∧
      sum_of owned = active.replicas.toInt + sum_of (old_of owned active.name) ∧
      0 ≤ sum_of (old_of owned active.name) := by
  have hpos : 0 ≤ sum_of (old_of owned active.name) :=
    List.sum_nonneg (forall_mem_map.mpr fun rs hrs => hrange.nonneg rs (mem_old_of.mp hrs).1)
  have hsplit : sum_of owned = active.replicas.toInt + sum_of (old_of owned active.name) :=
    sum_split hnodup ha fun rs => rs.replicas.toInt
  have hactive := hrange.nonneg active ha
  have hsum := hrange.sum
  refine ⟨?_, hsplit, hpos⟩
  rw [I32.toInt_sum, map_map]
  exact I32.bmod_eq_self (n := sum_of (old_of owned active.name)) ⟨by omega, by omega⟩

theorem InRange.scale_up (hrange : InRange p d owned) (ha : active ∈ owned)
    (hless : active.replicas < d.desired_replicas) :
    (active.replicas + min (max (d.desired_replicas + d.max_surge p -
        (owned.map ReplicaSet.replicas).sum) 0) (d.desired_replicas - active.replicas)).toInt =
      active.replicas.toInt + min (max (surge_bound p d - sum_of owned) 0)
        (d.desired_replicas.toInt - active.replicas.toInt) := by
  have hactive := hrange.nonneg active ha
  have hless' := Int32.lt_iff_toInt_lt.mp hless
  obtain ⟨-, hhigh⟩ := I32.fits_toInt d.desired_replicas
  have hadd : (d.desired_replicas + d.max_surge p - (owned.map ReplicaSet.replicas).sum).toInt =
      surge_bound p d - sum_of owned := hrange.toInt_to_add
  have hmissing : (d.desired_replicas - active.replicas).toInt =
      d.desired_replicas.toInt - active.replicas.toInt :=
    I32.toInt_sub_of_fits ⟨by omega, by omega⟩
  have hup : (min (max (d.desired_replicas + d.max_surge p -
      (owned.map ReplicaSet.replicas).sum) 0) (d.desired_replicas - active.replicas)).toInt =
        min (max (surge_bound p d - sum_of owned) 0)
          (d.desired_replicas.toInt - active.replicas.toInt) := by
    rw [I32.toInt_min, I32.toInt_max, hadd, hmissing, Int32.toInt_zero]
  rw [I32.toInt_add_of_fits ⟨by omega, by omega⟩, hup]

variable (hrolling : d.is_rolling_update = true) (hrange : InRange p d owned)
  (hcounted : Counted (count_available_pods_min_ready p w.pods) owned)
  (h : Shows d owned ReplicaSet.replicas w)

include hrolling hrange hcounted h

/-- **The rollout of a rolling update stays within the surge**, the new ReplicaSet there. -/
theorem rollout_active_within (hactive : active_rs d owned = some active)
    (hnot : ¬(old_rs_total d owned = 0 ∧ active.replicas ≠ d.desired_replicas)) :
    Within d (max (surge_bound p d) (sum_of owned)) (rollout_active p d owned active w) := by
  have ha : active ∈ owned := mem_of_find?_eq_some hactive
  have hnonneg := hrange.nonneg
  have hpos := hnonneg active ha
  have hdesired := hrange.desired
  have hsurge := hrange.surge
  obtain ⟨hold, hsplit, holdpos⟩ := hrange.old_sum h.nodup ha
  have hstart : Drains d owned active w.pods active.replicas w := h.drains hnonneg
  unfold rollout_active
  have h₁ : Drains d owned active w.pods active.replicas (cleanup_saturated d owned active w) := by
    unfold cleanup_saturated
    simp only
    split_ifs
    · exact hstart.scale_to_zero hnonneg
    · exact hstart
  simp only [hrolling, true_and, if_true]
  split_ifs with hup hchange hdiff
  · -- scaled up as far as the surge allows
    have hcount := hrange.scale_up ha hup.1
    refine ((h₁.update _).reconcile_old hcounted _ _ _).within ha ?_ ?_
    · omega
    · omega
  · refine (h₁.reconcile_old hcounted _ _ _).within ha hpos ?_
    omega
  · -- scaled down to the full count
    refine ((h₁.update _).reconcile_old hcounted _ _ _).within ha hdesired ?_
    rw [Int32.lt_iff_toInt_lt, Int32.lt_iff_toInt_lt, Int32.toInt_zero,
      old_rs_total_active hactive, hold] at hup
    have hsome : old_rs_total d owned ≠ 0 := fun hzero => hnot ⟨hzero, hdiff⟩
    rw [Ne, ← Int32.toInt_inj, old_rs_total_active hactive, hold, Int32.toInt_zero] at hsome
    unfold surge_bound
    omega
  · refine (h₁.reconcile_old hcounted _ _ _).within ha hpos ?_
    omega

/-- **The rollout of a rolling update stays within the surge.** -/
theorem rollout_within :
    Within d (max (surge_bound p d) (sum_of owned)) (rollout p d owned w) := by
  have hnonneg := hrange.nonneg
  have hdesired := hrange.desired
  have hsurge := hrange.surge
  unfold rollout
  cases hactive : active_rs d owned with
  | some active =>
    simp only
    split_ifs with hsimple
    · -- no old replicas: straight to the full count
      have ha : active ∈ owned := mem_of_find?_eq_some hactive
      obtain ⟨hold, hsplit, -⟩ := hrange.old_sum h.nodup ha
      have hzero : old_rs_total d owned = 0 := hsimple.1
      rw [old_rs_total_active hactive, ← Int32.toInt_inj, hold, Int32.toInt_zero] at hzero
      refine ((h.drains hnonneg).update d.desired_replicas).within ha hdesired ?_
      unfold surge_bound
      omega
    · exact (rollout_active_within hrolling hrange hcounted h hactive hsimple).cleanup
  | none =>
    apply Within.cleanup
    have hold : (old_rs_total d owned).toInt = sum_of owned := by
      rw [old_rs_total_none hactive, hrange.toInt_sum]
    have hwithin : Within d (sum_of owned) w := h.within hnonneg (le_refl _)
    have htotal : total d w = sum_of owned := h.total_eq
    have hadd := hrange.toInt_to_add
    rw [to_add, ← old_rs_total_none hactive] at hadd
    unfold rollout_new create_replicaset
    simp only [hrolling, Bool.not_true, Bool.false_eq_true, false_and, if_false, true_and]
    split_ifs with hsome
    · have hinitial : (max (min (max (d.desired_replicas + d.max_surge p - old_rs_total d owned) 0)
          d.desired_replicas) 0).toInt =
          max (min (max (surge_bound p d - sum_of owned) 0) d.desired_replicas.toInt) 0 := by
        rw [I32.toInt_max, I32.toInt_min, I32.toInt_max, hadd, Int32.toInt_zero]
      exact hwithin.create (by omega) (le_max_right _ _) (by omega)
    · refine hwithin.create hdesired (le_max_right _ _) ?_
      rw [Int32.lt_iff_toInt_lt, hold, Int32.toInt_zero] at hsome
      unfold surge_bound
      omega

end rollout

/-! ### The reconcile -/

section reconcile

variable {p : Platform} {d : Deployment} {owned : List ReplicaSet} {w : World}

theorem zero_of_single_active {only : ReplicaSet} (hsingle : single_active_rs owned = some only)
    (hnonneg : ∀ rs ∈ owned, 0 ≤ rs.replicas.toInt) :
    only ∈ owned ∧ ∀ rs ∈ old_of owned only.name, rs.replicas = 0 := by
  unfold single_active_rs at hsingle
  split at hsingle
  · next o hfilter =>
    obtain rfl := Option.some.inj hsingle
    have hmem : o ∈ owned.filter fun rs => 0 < rs.replicas := hfilter ▸ mem_singleton_self o
    refine ⟨(mem_filter.mp hmem).1, ?_⟩
    intro rs hrs
    obtain ⟨hrs', hname⟩ := mem_old_of.mp hrs
    by_contra hzero
    have hpos : 0 < rs.replicas := by
      rw [Int32.lt_iff_toInt_lt]
      exact lt_of_le_of_ne (hnonneg rs hrs') fun heq => hzero (Int32.toInt_inj.mp heq.symm)
    have hmem' : rs ∈ owned.filter fun rs => 0 < rs.replicas :=
      mem_filter.mpr ⟨hrs', decide_eq_true hpos⟩
    rw [hfilter, mem_singleton] at hmem'
    exact hname (hmem' ▸ rfl)
  · cases hsingle

/-- Whether the scaling event is one for several ReplicaSets, with one changed at least. -/
def splits (p : Platform) (d : Deployment) (owned : List ReplicaSet) : Bool :=
  is_scaling_event d owned && (single_active_rs owned).isNone &&
    decide ((owned.map ReplicaSet.replicas).sum ≠ d.desired_replicas + d.max_surge p) &&
      !(proportional_updates p d owned).isEmpty

/-- **From a listing on, a reconcile stays within the surge.** -/
theorem sync_within (hrolling : d.is_rolling_update = true) (hrange : InRange p d owned)
    (hcounted : Counted (count_available_pods_min_ready p w.pods) owned)
    (h : Shows d owned ReplicaSet.replicas w) :
    Within d (max (surge_bound p d) (sum_of owned)) (sync p d owned w) ∧
      (splits p d owned = true → scales_freely p d owned = true →
        total d (sync p d owned w) = surge_bound p d) := by
  have hnonneg := hrange.nonneg
  have hdesired := hrange.desired
  have hsurge := hrange.surge
  have hrollout := rollout_within hrolling hrange hcounted h
  unfold sync
  cases hevent : is_scaling_event d owned with
  | false =>
    exact ⟨hrollout, fun hdist => absurd hdist (by simp [splits, hevent])⟩
  | true =>
    simp only [if_true]
    cases hsingle : single_active_rs owned with
    | some only =>
      simp only
      refine ⟨?_, fun hdist => absurd hdist (by simp [splits, hsingle])⟩
      split_ifs
      · obtain ⟨honly, hzero⟩ := zero_of_single_active hsingle hnonneg
        have hsum : sum_of (old_of owned only.name) = 0 :=
          sum_eq_zero (forall_mem_map.mpr fun rs hrs => by rw [hzero rs hrs]; rfl)
        have hscaled : Within d (max (surge_bound p d) (sum_of owned))
            (update_replicaset_replicas w only d.desired_replicas) := by
          refine ((h.drains hnonneg).update d.desired_replicas).within honly hdesired ?_
          unfold surge_bound
          omega
        unfold Within at hscaled ⊢
        rw [total_eq_counts, ((Annotated.refl _).annotate only _ _).counts, ← total_eq_counts]
        exact hscaled
      · exact hrollout
    | none =>
      obtain ⟨hnodup, hfinal, hbound, hexact⟩ := final_proportional hrange h.nodup
      have hshows : Shows d owned _ _ :=
        (Annotated.annotate_active p d owned).counts.trans (shows_apply_updates (w := w) hnodup h)
      by_cases hsum : (owned.map ReplicaSet.replicas).sum ≠ d.desired_replicas + d.max_surge p
      · cases hempty : (proportional_updates p d owned).isEmpty with
        | true =>
          -- nothing to change but the annotations
          have hnil := isEmpty_iff.mp hempty
          have hpods : (annotate_active p d owned
              (apply_updates owned (proportional_updates p d owned) w)).pods = w.pods := by
            rw [(Annotated.annotate_active p d owned).pods, hnil]
            rfl
          simp only [scale_proportionally, if_pos hsum, hempty, Bool.not_true, Bool.false_eq_true,
            if_false]
          refine ⟨rollout_within hrolling hrange (hpods ▸ hcounted) (hshows.congr ?_),
            fun hdist => absurd hdist (by simp [splits, hempty])⟩
          intro rs _
          rw [hnil]
          rfl
        | false =>
          have hne : proportional_updates p d owned ≠ [] := by
            intro hnil
            rw [hnil] at hempty
            cases hempty
          simp only [scale_proportionally, if_pos hsum, hempty, Bool.not_false, if_true]
          refine ⟨hshows.within hfinal hbound, ?_⟩
          intro _ hfree
          rw [hshows.total_eq]
          exact hexact hne hfree
      · simp only [scale_proportionally, if_neg hsum, Bool.false_eq_true, if_false]
        refine ⟨hrollout, fun hdist => absurd hdist ?_⟩
        simp [splits, hsum]

def claimed (d : Deployment) (w : World) : List ReplicaSet := (adopt_replicasets d w).owned d

/-- Whether a reconcile distributes a scaling event over several ReplicaSets and changes
    one at least. -/
def distributes (p : Platform) (d : Deployment) (w : World) : Bool :=
  d.deletion_timestamp.isNone && !d.paused.getD false && splits p d (claimed d w)

theorem owned_sublist_claimed (d : Deployment) (w : World) : (w.owned d).Sublist (claimed d w) := by
  show (w.replicasets.items.filter fun rs => is_owned_by_deployment rs d).Sublist
    ((w.replicasets.items.map (adopt d)).filter fun rs => is_owned_by_deployment rs d)
  induction w.replicasets.items with
  | nil => exact Sublist.slnil
  | cons rs rest ih =>
    rw [map_cons, filter_cons, filter_cons]
    by_cases howned : is_owned_by_deployment rs d = true
    · have hkept : adopt d rs = rs := by simp [adopt, howned]
      rw [hkept, if_pos howned, if_pos howned]
      exact ih.cons_cons _
    · split_ifs
      · exact ih.cons _
      · exact ih

theorem within_claimed (hnonneg : ∀ rs ∈ claimed d w, 0 ≤ rs.replicas.toInt) :
    Within d (sum_of (claimed d w)) w := by
  have hsub := owned_sublist_claimed d w
  constructor
  · exact (hsub.map _).sum_le_sum (forall_mem_map.mpr hnonneg)
  · exact forall_mem_map.mpr fun rs hrs => hnonneg rs (hsub.subset hrs)

/-- **A reconcile stays within the surge.** For a Deployment as validation admits it
    (neither the replicas nor the surge negative) and its ReplicaSets, those it adopts
    included, the sum of the counts is at most the bound or what it was, no count is
    negative, and a scaling event that is distributed with no count held at zero leaves
    exactly the bound. The bound and the sum before must be in the range of `i32`. -/
theorem reconcile_deployment_within_surge (p : Platform) (d : Deployment) (w : World)
    (hrolling : d.is_rolling_update = true) (hrange : InRange p d (claimed d w))
    (havailable : ∀ rs ∈ claimed d w, 0 ≤ (count_available_pods_min_ready p w.pods rs).toInt) :
    let w' := reconcile_deployment p d w
    total d w' ≤ max (surge_bound p d) (sum_of (claimed d w)) ∧
      (∀ rs ∈ w'.owned d, 0 ≤ rs.replicas.toInt) ∧
      (distributes p d w = true → scales_freely p d (claimed d w) = true →
        total d w' = surge_bound p d) := by
  have hmem : ∀ {bound : Int} {w : World}, Within d bound w →
      ∀ rs ∈ w.owned d, 0 ≤ rs.replicas.toInt :=
    fun hwithin => (forall_mem_map (P := fun c : String × Int32 => 0 ≤ c.2.toInt)).mp hwithin.2
  -- claiming changes no count
  have hshows : Shows d (claimed d w) ReplicaSet.replicas
      (set_revisions p d (claimed d w) (adopt_replicasets d w)) :=
    (Annotated.set_revisions p).counts
  have hpods : (set_revisions p d (claimed d w) (adopt_replicasets d w)).pods = w.pods :=
    (Annotated.set_revisions p).pods
  have hcounted : Counted (count_available_pods_min_ready p w.pods) (claimed d w) :=
    fun rs hrs => ⟨havailable rs hrs, hrange.nonneg rs hrs⟩
  unfold reconcile_deployment
  split_ifs with hdeleted hpaused
  · have hwithin := within_claimed hrange.nonneg
    refine ⟨le_trans hwithin.1 (le_max_right _ _), hmem hwithin, ?_⟩
    intro hdist
    have hlive : d.deletion_timestamp.isNone = true :=
      (Bool.and_eq_true_iff.mp (Bool.and_eq_true_iff.mp hdist).1).1
    rw [Option.isNone_iff_eq_none.mp hlive] at hdeleted
    cases hdeleted
  · have hwithin := hshows.within hrange.nonneg (le_refl _)
    refine ⟨le_trans hwithin.1 (le_max_right _ _), hmem hwithin, ?_⟩
    intro hdist
    simp [distributes, hpaused] at hdist
  · obtain ⟨hwithin, hexact⟩ := sync_within hrolling hrange (hpods.symm ▸ hcounted) hshows
    refine ⟨hwithin.1, hmem hwithin, ?_⟩
    intro hdist
    exact hexact (Bool.and_eq_true_iff.mp hdist).2

end reconcile

namespace Sample

def scaled (desired max : String) : List (String × String) :=
  [(DESIRED_REPLICAS, desired), (MAX_REPLICAS, max)]

/-- Two ReplicaSets that do not agree on the maximum they were scaled with. -/
def uneven : World where
  replicasets := ⟨[replicaset "1" 3 (scaled "9" "3"), replicaset "2" 3 (scaled "9" "2")], by decide⟩
  pods := []

/-- Two ReplicaSets in the middle of a rollout. -/
def rollout : World where
  replicasets := ⟨[replicaset "1" 3 (scaled "5" "6"), replicaset "2" 2 (scaled "5" "6")], by decide⟩
  pods := []

def surging : DeploymentStrategy where
  strategy_type := "RollingUpdate"
  rolling_update := some { max_surge := some (.int 2147483647), max_unavailable := some (.int 0) }

end Sample

/-- Scaling down to a bound of two: the first ReplicaSet is to lose one of its three, the
    second none, and of the leftover of three the first can give only two. And with a surge
    of `i32::MAX` the bound wraps around to a negative number, so that scaling up from five
    to nine replicas leaves none. -/
theorem leftover_held_and_bound_wrapped :
    let small := Sample.deployment "2" 1 Sample.rolling
    let large := Sample.deployment "2" 9 Sample.surging
    (distributes Sample.platform small Sample.uneven = true ∧
        total small (reconcile_deployment Sample.platform small Sample.uneven) = 3 ∧
        surge_bound Sample.platform small = 2) ∧
      distributes Sample.platform large Sample.rollout = true ∧
        total large (reconcile_deployment Sample.platform large Sample.rollout) = 0 ∧
        surge_bound Sample.platform large = 2147483656 := by
  decide +kernel

/-- Scaling up from five to a bound of ten. -/
theorem rollout_scaled_up_to_surge :
    let d := Sample.deployment "2" 9 Sample.rolling
    distributes Sample.platform d Sample.rollout = true ∧
      total d (reconcile_deployment Sample.platform d Sample.rollout) = surge_bound Sample.platform d :=
  ⟨by decide +kernel, (reconcile_deployment_within_surge Sample.platform
    (Sample.deployment "2" 9 Sample.rolling) Sample.rollout rfl
    ⟨by decide +kernel, by decide +kernel, by decide +kernel, by decide +kernel, by decide +kernel⟩
    (by decide +kernel)).2.2 (by decide +kernel) (by decide +kernel)⟩

end Deployments
