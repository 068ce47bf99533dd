import Rusternetes.Deployments.Scale
import Rusternetes.Framework.Int32

/-! # Availability During a Rolling Update

    The old ReplicaSets are drained in two passes. The first takes replicas that are not
    available, so it costs no availability. The second takes what it finds, within a
    budget of the available pods beyond the minimum. The budget counts every available
    pod, also one beyond the count of its ReplicaSet, which is on its way out already.
    What the passes cost is worked out exactly, by `lost`.
-/

open List

namespace Deployments

open Framework Function

/-! ### Draining -/

section drain

variable (amount : String → Int32 → Int32) (budget : Int32)

theorem drain_of_le {done : Int32} (h : budget ≤ done) (rss : List ReplicaSet)
    (cur : String → Int32) : drain amount budget rss cur done = cur := by
  cases rss with
  | nil => rfl
  | cons rs rest => rw [drain, if_pos h]

/-- **What a pass does at one ReplicaSet**: it takes the amount, or what is left of the
    budget. -/
theorem drain_cons {rs : ReplicaSet} {cur : String → Int32} {done : Int32}
    (hamount : 0 ≤ (amount rs.name (cur rs.name)).toInt)
    (hle : (amount rs.name (cur rs.name)).toInt ≤ (cur rs.name).toInt)
    (hpos : 0 ≤ done.toInt) (hdone : done.toInt ≤ budget.toInt) (rest : List ReplicaSet) :
    ∃ scale : Int32,
      scale.toInt = min (amount rs.name (cur rs.name)).toInt (budget.toInt - done.toInt) ∧
      drain amount budget (rs :: rest) cur done =
        drain amount budget rest (update cur rs.name (cur rs.name - scale)) (done + scale) := by
  -- taking nothing changes nothing
  have hnone : ∀ rest, drain amount budget rest cur done =
      drain amount budget rest (update cur rs.name (cur rs.name - 0)) (done + 0) := by
    intro rest
    rw [Int32.sub_zero, Int32.add_zero, update_eq_self]
  have hleft : (budget - done).toInt = budget.toInt - done.toInt := by
    obtain ⟨-, hhigh⟩ := I32.fits_toInt budget
    exact I32.toInt_sub_of_fits ⟨by omega, by omega⟩
  by_cases hstop : budget ≤ done
  · have heq : budget.toInt ≤ done.toInt := Int32.le_iff_toInt_le.mp hstop
    refine ⟨0, ?_, ?_⟩
    · rw [Int32.toInt_zero]
      omega
    · rw [drain_of_le amount budget hstop, ← hnone, drain_of_le amount budget hstop]
  · rw [drain, if_neg hstop]
    simp only
    split_ifs with hskip
    · refine ⟨0, ?_, hnone rest⟩
      rw [Int32.le_iff_toInt_le, I32.toInt_min, hleft, Int32.toInt_zero] at hskip
      rw [Int32.toInt_zero]
      rcases hskip with hzero | hnothing
      · have hzero' : (cur rs.name).toInt = 0 := congrArg Int32.toInt hzero
        omega
      · omega
    · exact ⟨_, by rw [I32.toInt_min, hleft], rfl⟩

theorem drain_of_not_mem {rss : List ReplicaSet} {n : String} (hn : n ∉ rss.map ReplicaSet.name)
    (cur : String → Int32) (done : Int32) : drain amount budget rss cur done n = cur n := by
  induction rss generalizing cur done with
  | nil => rfl
  | cons rs rest ih =>
    rw [map_cons, mem_cons, not_or] at hn
    rw [drain]
    simp only
    split_ifs
    · rfl
    · exact ih hn.2 _ _
    · rw [ih hn.2, update_of_ne hn.1]

end drain

/-- What a pass leaves of counts, given what it may take of each and a budget. -/
def drained (budget : Int) : List (Int × Int) → List Int
  | [] => []
  | (amount, count) :: rest =>
    (count - min amount budget) :: drained (budget - min amount budget) rest

/-- **A pass hands its budget out in order.** -/
theorem map_drain {amount : String → Int32 → Int32} {budget : Int32} {rss : List ReplicaSet}
    (hnodup : (rss.map ReplicaSet.name).Nodup) {cur : String → Int32} {done : Int32}
    (hamount : ∀ rs ∈ rss, 0 ≤ (amount rs.name (cur rs.name)).toInt ∧
      (amount rs.name (cur rs.name)).toInt ≤ (cur rs.name).toInt)
    (hpos : 0 ≤ done.toInt) (hdone : done.toInt ≤ budget.toInt) :
    (rss.map fun rs => (drain amount budget rss cur done rs.name).toInt) =
      drained (budget.toInt - done.toInt)
        (rss.map fun rs => ((amount rs.name (cur rs.name)).toInt, (cur rs.name).toInt)) := by
  induction rss generalizing cur done with
  | nil => rfl
  | cons rs rest ih =>
    obtain ⟨hnot, hrest⟩ := nodup_cons.mp hnodup
    obtain ⟨hamount₀, hle₀⟩ := hamount rs (.head _)
    obtain ⟨scale, hscale, heq⟩ := drain_cons amount budget hamount₀ hle₀ hpos hdone rest
    obtain ⟨-, hhigh⟩ := I32.fits_toInt budget
    obtain ⟨-, hcur⟩ := I32.fits_toInt (cur rs.name)
    have hsub : (cur rs.name - scale).toInt = (cur rs.name).toInt - scale.toInt :=
      I32.toInt_sub_of_fits ⟨by omega, by omega⟩
    have hadd : (done + scale).toInt = done.toInt + scale.toInt :=
      I32.toInt_add_of_fits ⟨by omega, by omega⟩
    -- the others have what they had
    have hother : ∀ r ∈ rest, update cur rs.name (cur rs.name - scale) r.name = cur r.name := by
      intro r hr
      exact update_of_ne (fun h => hnot (mem_map.mpr ⟨r, hr, h⟩)) _ _
    have ih' := @ih hrest (update cur rs.name (cur rs.name - scale)) (done + scale)
      (fun r hr => by rw [hother r hr]; exact hamount r (.tail _ hr)) (by omega) (by omega)
    have hlist : (rest.map fun r => ((amount r.name (update cur rs.name (cur rs.name - scale) r.name)).toInt,
        (update cur rs.name (cur rs.name - scale) r.name).toInt)) =
        rest.map fun r => ((amount r.name (cur r.name)).toInt, (cur r.name).toInt) :=
      map_congr_left fun r hr => by rw [hother r hr]
    rw [map_cons, map_cons, heq, drain_of_not_mem amount budget hnot, update_self, ih', hlist, drained,
      hsub, hadd, ← hscale]
    congr 2
    omega

theorem map_drain_zero {amount : String → Int32 → Int32} {budget : Int32} {rss : List ReplicaSet}
    (hnodup : (rss.map ReplicaSet.name).Nodup) {cur : String → Int32}
    (hamount : ∀ rs ∈ rss, 0 ≤ (amount rs.name (cur rs.name)).toInt ∧
      (amount rs.name (cur rs.name)).toInt ≤ (cur rs.name).toInt) (hbudget : 0 ≤ budget.toInt) :
    (rss.map fun rs => (drain amount budget rss cur 0 rs.name).toInt) =
      drained budget.toInt
        (rss.map fun rs => ((amount rs.name (cur rs.name)).toInt, (cur rs.name).toInt)) := by
  have h := @map_drain amount budget rss hnodup cur 0 hamount le_rfl hbudget
  rwa [Int32.toInt_zero, sub_zero] at h

theorem drained_bounds {l : List (Int × Int)} (hl : ∀ x ∈ l, 0 ≤ x.1 ∧ x.1 ≤ x.2) {budget : Int}
    (hbudget : 0 ≤ budget) : Forall₂ (fun x c => 0 ≤ c ∧ c ≤ x.2) l (drained budget l) := by
  induction l generalizing budget with
  | nil => exact .nil
  | cons x rest ih =>
    have hx := hl x (.head _)
    exact .cons (by omega) (ih (fun y hy => hl y (.tail _ hy)) (by omega))

/-- The available replicas that the two passes take of ReplicaSets in order, each given by
    its available pods and its count: the first pass takes replicas that are not available
    while its budget lasts, the second takes any. -/
def lost : Int → Int → List (Int × Int) → Int
  | _, _, [] => 0
  | unhealthy, healthy, (available, count) :: rest =>
    let idle := min (max (count - available) 0) unhealthy
    let taken := min (count - idle) healthy
    min available count - min available (count - idle - taken) +
      lost (unhealthy - idle) (healthy - taken) rest

theorem lost_le {l : List (Int × Int)} (hl : ∀ x ∈ l, 0 ≤ x.1 ∧ 0 ≤ x.2) {unhealthy healthy : Int}
    (hunhealthy : 0 ≤ unhealthy) (hhealthy : 0 ≤ healthy) : lost unhealthy healthy l ≤ healthy := by
  induction l generalizing unhealthy healthy with
  | nil => exact hhealthy
  | cons x rest ih =>
    have hx := hl x (.head _)
    have ih' := @ih (fun y hy => hl y (.tail _ hy))
      (unhealthy - min (max (x.2 - x.1) 0) unhealthy)
      (healthy - min (x.2 - min (max (x.2 - x.1) 0) unhealthy) healthy)
      (by omega) (by omega)
    simp only [lost]
    omega

/-! ### The old ReplicaSets -/

variable (p : Platform) (d : Deployment) (w : World) (active_name : String)

theorem find_listed {rss : List ReplicaSet} (hnodup : (rss.map ReplicaSet.name).Nodup)
    {rs : ReplicaSet} (hrs : rs ∈ rss) : (rss.find? fun r => r.name = rs.name) = some rs :=
  Roster.find_eq_some (r := ⟨rss, hnodup⟩).mpr ⟨hrs, rfl⟩

theorem by_name_eq {rss : List ReplicaSet} (hnodup : (rss.map ReplicaSet.name).Nodup)
    (f : ReplicaSet → Int32) {rs : ReplicaSet} (hrs : rs ∈ rss) : by_name rss f rs.name = f rs := by
  unfold by_name
  rw [find_listed hnodup hrs]
  rfl

def Counted (available : ReplicaSet → Int32) (rss : List ReplicaSet) : Prop :=
  ∀ rs ∈ rss, 0 ≤ (available rs).toInt ∧ 0 ≤ rs.replicas.toInt

instance (available : ReplicaSet → Int32) (rss : List ReplicaSet) :
    Decidable (Counted available rss) :=
  inferInstanceAs (Decidable (∀ rs ∈ rss, _ ∧ _))

section passes

variable {old ordered : List ReplicaSet} (hnodup : (old.map ReplicaSet.name).Nodup)
  (hperm : ordered.Perm old) {available : ReplicaSet → Int32} (hcounted : Counted available old)
  {unhealthy healthy : Int32} (hunhealthy : 0 ≤ unhealthy.toInt) (hhealthy : 0 ≤ healthy.toInt)

include hnodup hperm hcounted hunhealthy

theorem map_cleanup_unhealthy :
    (ordered.map fun rs => (cleanup_unhealthy_replicas (by_name old available) unhealthy ordered
        (by_name old ReplicaSet.replicas) rs.name).toInt) =
      drained unhealthy.toInt (ordered.map fun rs =>
        (max (rs.replicas.toInt - (available rs).toInt) 0, rs.replicas.toInt)) := by
  have hcur : ∀ rs ∈ ordered, by_name old ReplicaSet.replicas rs.name = rs.replicas :=
    fun rs hrs => by_name_eq hnodup _ (hperm.subset hrs)
  have hamount : ∀ rs ∈ ordered, (max (by_name old ReplicaSet.replicas rs.name -
      by_name old available rs.name) 0).toInt = max (rs.replicas.toInt - (available rs).toInt) 0 := by
    intro rs hrs
    obtain ⟨hav, hpos⟩ := hcounted rs (hperm.subset hrs)
    obtain ⟨-, hhigh⟩ := I32.fits_toInt rs.replicas
    obtain ⟨-, hhigh'⟩ := I32.fits_toInt (available rs)
    rw [hcur rs hrs, by_name_eq hnodup available (hperm.subset hrs), I32.toInt_max,
      I32.toInt_sub_of_fits ⟨by omega, by omega⟩, Int32.toInt_zero]
  unfold cleanup_unhealthy_replicas
  rw [map_drain_zero ((hperm.map ReplicaSet.name).nodup_iff.mpr hnodup) ?_ hunhealthy]
  · refine congrArg _ (map_congr_left fun rs hrs => ?_)
    rw [hamount rs hrs, hcur rs hrs]
  · intro rs hrs
    obtain ⟨hav, hpos⟩ := hcounted rs (hperm.subset hrs)
    rw [hamount rs hrs, hcur rs hrs]
    omega

theorem cleanup_unhealthy_bounds {rs : ReplicaSet} (hrs : rs ∈ ordered) :
    let c := (cleanup_unhealthy_replicas (by_name old available) unhealthy ordered
      (by_name old ReplicaSet.replicas) rs.name).toInt
    0 ≤ c ∧ c ≤ rs.replicas.toInt := by
  have hbounds := drained_bounds (l := ordered.map fun rs =>
    (max (rs.replicas.toInt - (available rs).toInt) 0, rs.replicas.toInt)) ?_ hunhealthy
  · rw [← map_cleanup_unhealthy hnodup hperm hcounted hunhealthy, forall₂_map_left_iff,
      forall₂_map_right_iff, forall₂_same] at hbounds
    exact hbounds rs hrs
  · refine forall_mem_map.mpr fun r hr => ?_
    obtain ⟨hav, hpos⟩ := hcounted r (hperm.subset hr)
    simp only
    omega

include hhealthy

theorem map_scale_down_healthy :
    (ordered.map fun rs => (scale_down_healthy healthy ordered (cleanup_unhealthy_replicas
        (by_name old available) unhealthy ordered (by_name old ReplicaSet.replicas)) rs.name).toInt) =
      drained healthy.toInt ((drained unhealthy.toInt (ordered.map fun rs =>
        (max (rs.replicas.toInt - (available rs).toInt) 0, rs.replicas.toInt))).map
          fun c => (c, c)) := by
  unfold scale_down_healthy
  rw [map_drain_zero ((hperm.map ReplicaSet.name).nodup_iff.mpr hnodup) ?_ hhealthy]
  · rw [← map_cleanup_unhealthy hnodup hperm hcounted hunhealthy, map_map]
    rfl
  · intro rs hrs
    exact ⟨(cleanup_unhealthy_bounds hnodup hperm hcounted hunhealthy hrs).1, le_rfl⟩

/-- **An old ReplicaSet keeps its count or goes down, and not below zero.** -/
theorem scale_down_healthy_bounds {rs : ReplicaSet} (hrs : rs ∈ ordered) :
    let c := (scale_down_healthy healthy ordered (cleanup_unhealthy_replicas
      (by_name old available) unhealthy ordered (by_name old ReplicaSet.replicas)) rs.name).toInt
    0 ≤ c ∧ c ≤ rs.replicas.toInt := by
  have hfirst := fun r (hr : r ∈ ordered) =>
    cleanup_unhealthy_bounds hnodup hperm hcounted hunhealthy hr
  have hbounds := drained_bounds (l := (drained unhealthy.toInt (ordered.map fun rs =>
    (max (rs.replicas.toInt - (available rs).toInt) 0, rs.replicas.toInt))).map
      fun c => (c, c)) ?_ hhealthy
  · rw [← map_scale_down_healthy hnodup hperm hcounted hunhealthy hhealthy,
      ← map_cleanup_unhealthy hnodup hperm hcounted hunhealthy, map_map, forall₂_map_left_iff,
      forall₂_map_right_iff, forall₂_same] at hbounds
    have hsecond := hbounds rs hrs
    exact ⟨hsecond.1, hsecond.2.trans (hfirst rs hrs).2⟩
  · rw [← map_cleanup_unhealthy hnodup hperm hcounted hunhealthy, map_map]
    exact forall_mem_map.mpr fun r hr => ⟨(hfirst r hr).1, le_rfl⟩

end passes

def new_available (p : Platform) (pods : List Pod) (owned : List ReplicaSet) (active_name : String) :
    Int32 :=
  match owned.find? fun rs => rs.name = active_name with
  | some new_rs => count_available_pods_min_ready p pods new_rs
  | none => 0

def old_of (owned : List ReplicaSet) (active_name : String) : List ReplicaSet :=
  owned.filter fun rs => rs.name ≠ active_name

theorem find_old (owned : List ReplicaSet) (active_name : String) :
    ((old_of owned active_name).find? fun rs => rs.name = active_name) = none := by
  rw [find?_eq_none]
  intro rs hrs hname
  exact of_decide_eq_true (mem_filter.mp hrs).2 (of_decide_eq_true hname)

def surviving (p : Platform) (pods : List Pod) (owned : List ReplicaSet) (active_name : String)
    (count : ReplicaSet → Int32) : Int :=
  (new_available p pods owned active_name).toInt +
    ((old_of owned active_name).map fun rs =>
      min (count_available_pods_min_ready p pods rs).toInt (count rs).toInt).sum

section targets

variable (p : Platform) (pods : List Pod) (owned : List ReplicaSet) (active_name : String)
  (new_active_replicas desired_replicas max_unavailable : Int32)

/-- The replicas beyond the minimum, without those that the new ReplicaSet still waits
    for. -/
def spare_replicas : Int32 :=
  max (new_active_replicas + ((old_of owned active_name).map ReplicaSet.replicas).sum -
    max (desired_replicas - max_unavailable) 0 -
      max (new_active_replicas - new_available p pods owned active_name) 0) 0

def spare_available : Int32 :=
  max (new_available p pods owned active_name +
    ((old_of owned active_name).map (count_available_pods_min_ready p pods)).sum -
      max (desired_replicas - max_unavailable) 0) 0

/-- **What a call costs**, in available pods that the counts would have kept: nothing where
    no replica can be spared, and else what two passes take of the available replicas, from
    the oldest ReplicaSet on. -/
def cost : Int :=
  let unhealthy := spare_replicas p pods owned active_name new_active_replicas desired_replicas
    max_unavailable
  if unhealthy ≤ 0 then 0
  else
    lost unhealthy.toInt
      (spare_available p pods owned active_name desired_replicas max_unavailable).toInt
      (((old_of owned active_name).insertionSort fun a b => created_by a b = true).map fun rs =>
        ((count_available_pods_min_ready p pods rs).toInt, rs.replicas.toInt))

theorem spare_nonneg :
    0 ≤ (spare_replicas p pods owned active_name new_active_replicas desired_replicas
        max_unavailable).toInt ∧
      0 ≤ (spare_available p pods owned active_name desired_replicas max_unavailable).toInt := by
  unfold spare_replicas spare_available
  rw [I32.toInt_max, I32.toInt_max]
  exact ⟨le_max_right _ _, le_max_right _ _⟩

variable {owned} (hnodup : (owned.map ReplicaSet.name).Nodup)

include hnodup

theorem nodup_old : ((old_of owned active_name).map ReplicaSet.name).Nodup :=
  hnodup.sublist (Sublist.map _ filter_sublist)

theorem old_targets_cases :
    let old := old_of owned active_name
    let available := count_available_pods_min_ready p pods
    let ordered := old.insertionSort fun a b => created_by a b = true
    let unhealthy := spare_replicas p pods owned active_name new_active_replicas desired_replicas
      max_unavailable
    let healthy := spare_available p pods owned active_name desired_replicas max_unavailable
    let targets := old_targets p pods owned active_name new_active_replicas desired_replicas
      max_unavailable
    ((∀ rs ∈ old, rs.replicas = 0) ∨ unhealthy ≤ 0) ∧ targets = by_name old ReplicaSet.replicas ∨
      ¬unhealthy ≤ 0 ∧ targets = scale_down_healthy healthy ordered
        (cleanup_unhealthy_replicas (by_name old available) unhealthy ordered
          (by_name old ReplicaSet.replicas)) := by
  have hsum : ((old_of owned active_name).map fun rs =>
        by_name (old_of owned active_name) (count_available_pods_min_ready p pods) rs.name) =
      (old_of owned active_name).map (count_available_pods_min_ready p pods) :=
    map_congr_left fun rs hrs => by_name_eq (nodup_old active_name hnodup) _ hrs
  unfold spare_available
  simp only
  rw [← hsum]
  unfold old_targets
  simp only
  split_ifs with hzero hnone
  · refine .inl ⟨.inl fun rs hrs => ?_, rfl⟩
    exact of_decide_eq_true (all_eq_true.mp hzero rs hrs)
  · exact .inl ⟨.inr hnone, rfl⟩
  · exact .inr ⟨hnone, rfl⟩

variable (hcounted : Counted (count_available_pods_min_ready p pods) (old_of owned active_name))

include hcounted

/-- **An old ReplicaSet keeps its count or goes down, and not below zero.** -/
theorem old_targets_down {rs : ReplicaSet} (hrs : rs ∈ old_of owned active_name) :
    let target := (old_targets p pods owned active_name new_active_replicas desired_replicas
      max_unavailable rs.name).toInt
    0 ≤ target ∧ target ≤ rs.replicas.toInt := by
  have hnodup' := nodup_old active_name hnodup
  obtain ⟨hunhealthy, hhealthy⟩ := spare_nonneg p pods owned active_name new_active_replicas
    desired_replicas max_unavailable
  have hperm := perm_insertionSort (fun a b => created_by a b = true) (old_of owned active_name)
  rcases old_targets_cases p pods active_name new_active_replicas desired_replicas
    max_unavailable hnodup with ⟨-, h⟩ | ⟨-, h⟩
  · rw [h, by_name_eq hnodup' _ hrs]
    exact ⟨(hcounted rs hrs).2, le_rfl⟩
  · rw [h]
    exact scale_down_healthy_bounds hnodup' hperm hcounted hunhealthy hhealthy
      (hperm.symm.subset hrs)

omit hnodup

/-- Without a pod beyond the count of its ReplicaSet, and with sums in range, the cost can
    be spared. -/
theorem cost_le_of_no_excess
    (hexcess : ∀ rs ∈ old_of owned active_name,
      (count_available_pods_min_ready p pods rs).toInt ≤ rs.replicas.toInt)
    (hnew : 0 ≤ (new_available p pods owned active_name).toInt)
    (hmin : I32.Fits (desired_replicas.toInt - max_unavailable.toInt))
    (hsum : I32.Fits (surviving p pods owned active_name ReplicaSet.replicas)) :
    cost p pods owned active_name new_active_replicas desired_replicas max_unavailable ≤
      max (surviving p pods owned active_name ReplicaSet.replicas -
        (desired_replicas.toInt - max_unavailable.toInt)) 0 := by
  obtain ⟨hunhealthy, hhealthy⟩ := spare_nonneg p pods owned active_name new_active_replicas
    desired_replicas max_unavailable
  have hperm := perm_insertionSort (fun a b => created_by a b = true) (old_of owned active_name)
  have hle : cost p pods owned active_name new_active_replicas desired_replicas max_unavailable ≤
      (spare_available p pods owned active_name desired_replicas max_unavailable).toInt := by
    unfold cost
    simp only
    split_ifs
    · exact hhealthy
    · exact lost_le (forall_mem_map.mpr fun rs hrs => hcounted rs (hperm.subset hrs)) hunhealthy
        hhealthy
  refine hle.trans ?_
  -- every available pod survives
  have hall : surviving p pods owned active_name ReplicaSet.replicas =
      (new_available p pods owned active_name).toInt +
        ((old_of owned active_name).map fun rs =>
          (count_available_pods_min_ready p pods rs).toInt).sum := by
    unfold surviving
    congr 2
    exact map_congr_left fun rs hrs => min_eq_left (hexcess rs hrs)
  have hpos : 0 ≤ ((old_of owned active_name).map fun rs =>
      (count_available_pods_min_ready p pods rs).toInt).sum :=
    sum_nonneg (forall_mem_map.mpr fun rs hrs => (hcounted rs hrs).1)
  obtain ⟨-, hhigh⟩ := I32.fits_toInt (new_available p pods owned active_name)
  unfold I32.Fits at hmin hsum
  have hold : ((old_of owned active_name).map (count_available_pods_min_ready p pods)).sum.toInt =
      ((old_of owned active_name).map fun rs =>
        (count_available_pods_min_ready p pods rs).toInt).sum := by
    rw [I32.toInt_sum, map_map]
    exact I32.bmod_eq_self (n := ((old_of owned active_name).map fun rs =>
      (count_available_pods_min_ready p pods rs).toInt).sum) ⟨by omega, by omega⟩
  have htotal : (new_available p pods owned active_name +
        ((old_of owned active_name).map (count_available_pods_min_ready p pods)).sum).toInt =
      surviving p pods owned active_name ReplicaSet.replicas := by
    rw [I32.toInt_add_of_fits ⟨by omega, by omega⟩, hold, hall]
  have hleast : (max (desired_replicas - max_unavailable) 0).toInt =
      max (desired_replicas.toInt - max_unavailable.toInt) 0 := by
    rw [I32.toInt_max, I32.toInt_sub_of_fits hmin, Int32.toInt_zero]
  unfold spare_available
  rw [I32.toInt_max, I32.toInt_sub_of_fits ⟨by omega, by omega⟩, htotal, hleast, Int32.toInt_zero]
  omega

end targets

/-! ### The call -/

theorem reconcile_old_eq_scale (owned : List ReplicaSet)
    (hnodup : (owned.map ReplicaSet.name).Nodup) (active_name : String)
    (new_active desired max_unavailable : Int32) :
    reconcile_old_replicasets p w owned active_name new_active desired
        max_unavailable =
      w.scale fun name c =>
        (((old_of owned active_name).find? fun rs => rs.name = name).bind fun rs =>
          let target := old_targets p w.pods owned active_name new_active desired
            max_unavailable rs.name
          if target ≠ rs.replicas then some target else none).getD c := by
  unfold reconcile_old_replicasets
  generalize old_targets p w.pods owned active_name new_active desired
    max_unavailable = targets
  have hfold := foldl_update (w := w) (old_of owned active_name)
    fun rs => if targets rs.name ≠ rs.replicas then some (targets rs.name) else none
  have hstep : (fun (w : World) (rs : ReplicaSet) =>
        (if targets rs.name ≠ rs.replicas then some (targets rs.name) else none).elim w
          (update_replicaset_replicas w rs)) =
      fun w rs =>
        if targets rs.name ≠ rs.replicas then update_replicaset_replicas w rs (targets rs.name)
        else w := by
    funext w rs
    by_cases h : targets rs.name ≠ rs.replicas
    · simp [if_pos h, Option.elim_some]
    · simp [if_neg h, Option.elim_none]
  rw [hstep] at hfold
  show (old_of owned active_name).foldl _ w = _
  rw [hfold]
  congr 1
  funext name c
  exact foldl_target (nodup_old active_name hnodup) _ name c

namespace Sample

/-- Exact arithmetic where floating point would be used. -/
def platform : Platform where
  percent pct total :=
    .ofInt ((((Text.parse_digits pct.toList).getD 25 : Nat) * total.toInt + 99) / 100)
  share replicas allowed_size old_max :=
    .ofInt ((2 * replicas.toInt * allowed_size.toInt + old_max.toInt) / (2 * old_max.toInt))
  digest template :=
    match template.get "version" with
    | some (.string v) => v
    | _ => "0"
  now := 100
  new_uid := "u-100"

def template (version : String) : Json :=
  .object [("metadata", .object [("labels", .object [("app", .string "web")])]),
    ("version", .string version)]

def deployment (version : String) (replicas : Int32) (strategy : DeploymentStrategy) : Deployment where
  name := "web"
  uid := "d-1"
  replicas := some replicas
  template := template version
  strategy := some strategy

def replicaset (version : String) (replicas : Int32) (annotations : List (String × String) := []) :
    ReplicaSet where
  name := "web-" ++ version
  uid := "u-" ++ version
  annotations := annotations
  owner_references := [owner_reference (deployment version 0 { strategy_type := "" })]
  replicas := replicas
  template := template version

def ready_pod (version name : String) : Pod where
  name := name
  owner_references :=
    [{ kind := "ReplicaSet"
       name := "web-" ++ version
       uid := "u-" ++ version
       controller := some true }]
  conditions := [{ condition_type := "Ready", status := "True", last_transition_time := none }]

def rolling : DeploymentStrategy where
  strategy_type := "RollingUpdate"
  rolling_update := some { max_surge := some (.int 1), max_unavailable := some (.int 0) }

/-- The same without the third pod. -/
def settled : World where
  replicasets := ⟨[replicaset "1" 2, replicaset "2" 1], by decide⟩
  pods := [ready_pod "1" "a", ready_pod "1" "b", ready_pod "2" "d"]

end Sample

end Deployments
