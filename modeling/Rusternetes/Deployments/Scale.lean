import Mathlib
import Rusternetes.Deployments.Controller

/-! # Counts

    What the controller's writes do to the counts of the ReplicaSets. A write of
    `spec.replicas` is a change of one count; the writes of a whole pass are a change of
    all counts at once, and annotations change none.
-/

open List

namespace Deployments

open Framework

def ReplicaSet.with_replicas (rs : ReplicaSet) (n : Int32) : ReplicaSet := { rs with replicas := n }

/-- Every count changed, from the name and the count it was. -/
def World.scale (w : World) (g : String → Int32 → Int32) : World :=
  { w with
    replicasets := w.replicasets.change (fun rs => rs.with_replicas (g rs.name rs.replicas))
      fun _ => rfl }

def counts (d : Deployment) (w : World) : List (String × Int32) :=
  (w.owned d).map fun rs => (rs.name, rs.replicas)

def total (d : Deployment) (w : World) : Int := ((w.owned d).map fun rs => rs.replicas.toInt).sum

variable {d : Deployment} {w : World}

theorem World.ext_of_items {w' : World} (h : w.replicasets.items = w'.replicasets.items)
    (hpods : w.pods = w'.pods) : w = w' := by
  obtain ⟨⟨items, hn⟩, pods⟩ := w
  obtain ⟨⟨items', hn'⟩, pods'⟩ := w'
  subst h hpods
  rfl

theorem scale_scale (g h : String → Int32 → Int32) :
    (w.scale g).scale h = w.scale fun n c => h n (g n c) := by
  apply World.ext_of_items
  · show (w.replicasets.items.map _).map _ = w.replicasets.items.map _
    rw [map_map]
    rfl
  · rfl

theorem scale_id (h : ∀ rs ∈ w.replicasets.items, g rs.name rs.replicas = rs.replicas) :
    w.scale g = w := by
  apply World.ext_of_items
  · show w.replicasets.items.map _ = w.replicasets.items
    rw [map_congr_left (g := id), map_id]
    intro rs hrs
    rw [h rs hrs]
    rfl
  · rfl

theorem owned_scale (g : String → Int32 → Int32) :
    (w.scale g).owned d =
      (w.owned d).map fun rs => rs.with_replicas (g rs.name rs.replicas) := by
  show (w.replicasets.items.map _).filter _ = (w.replicasets.items.filter _).map _
  rw [filter_map]
  rfl

theorem counts_scale (g : String → Int32 → Int32) :
    counts d (w.scale g) = (counts d w).map fun c => (c.1, g c.1 c.2) := by
  unfold counts
  rw [owned_scale, map_map, map_map]
  rfl

theorem total_eq_counts : total d w = ((counts d w).map fun c => c.2.toInt).sum := by
  unfold total counts
  rw [map_map]
  rfl

theorem nodup_owned (d : Deployment) (w : World) : ((w.owned d).map ReplicaSet.name).Nodup :=
  w.replicasets.nodup.sublist (Sublist.map _ filter_sublist)

theorem nodup_counts : ((counts d w).map Prod.fst).Nodup := by
  unfold counts
  rw [map_map]
  exact nodup_owned d w

/-! ### Writes -/

/-- A write of `spec.replicas` changes one count. -/
theorem update_eq_scale (rs : ReplicaSet) (n : Int32) :
    update_replicaset_replicas w rs n = w.scale fun name c => if name = rs.name then n else c := by
  unfold update_replicaset_replicas
  cases hfind : w.replicasets.find rs.name with
  | none =>
    refine (scale_id ?_).symm
    intro r hr
    exact if_neg (Roster.find_eq_none.mp hfind r hr)
  | some fresh =>
    obtain ⟨hmem, hname⟩ := Roster.find_eq_some.mp hfind
    by_cases hsame : fresh.replicas = n
    · simp only [if_pos hsame]
      refine (scale_id ?_).symm
      intro r hr
      by_cases hr' : r.name = rs.name
      · rw [if_pos hr', w.replicasets.eq_of_name hr hmem (hr'.trans hname.symm), hsame]
      · exact if_neg hr'
    · simp only [if_neg hsame]
      apply World.ext_of_items
      · refine map_congr_left ?_
        intro r hr
        simp only
        by_cases hr' : r.name = rs.name
        · rw [if_pos (hr'.trans hname.symm), if_pos hr',
            w.replicasets.eq_of_name hr hmem (hr'.trans hname.symm)]
          rfl
        · rw [if_neg (fun h => hr' (h.trans hname)), if_neg hr']
          rfl
      · rfl

theorem foldl_update (rss : List ReplicaSet) (target : ReplicaSet → Option Int32) :
    rss.foldl (fun w rs => (target rs).elim w (update_replicaset_replicas w rs)) w =
      w.scale fun name c =>
        rss.foldl (fun c rs => (target rs).elim c fun n => if name = rs.name then n else c) c := by
  induction rss generalizing w with
  | nil => exact (scale_id fun _ _ => rfl).symm
  | cons rs rss ih =>
    cases htarget : target rs with
    | none =>
      simp only [foldl_cons, htarget, Option.elim_none]
      exact ih
    | some n =>
      simp only [foldl_cons, htarget, Option.elim_some]
      rw [ih, update_eq_scale, scale_scale]

/-- With distinct names a count is written once. -/
theorem foldl_target {rss : List ReplicaSet} (hnodup : (rss.map ReplicaSet.name).Nodup)
    (target : ReplicaSet → Option Int32) (name : String) (c : Int32) :
    rss.foldl (fun c rs => (target rs).elim c fun n => if name = rs.name then n else c) c =
      ((rss.find? fun rs => rs.name = name).bind target).getD c := by
  induction rss generalizing c with
  | nil => rfl
  | cons rs rss ih =>
    obtain ⟨hnot, hrest⟩ := nodup_cons.mp hnodup
    rw [foldl_cons, ih hrest, find?_cons]
    by_cases hname : rs.name = name
    · have hnone : rss.find? (fun r => r.name = name) = none := by
        rw [find?_eq_none]
        intro r hr
        rw [decide_eq_true_iff]
        intro h
        exact hnot (mem_map.mpr ⟨r, hr, h.trans hname.symm⟩)
      rw [hnone]
      cases htarget : target rs <;> simp [hname, htarget]
    · have hname' : name ≠ rs.name := fun h => hname h.symm
      cases target rs <;> simp [hname, hname']

/-! ### Annotations -/

/-- What annotations leave as it is. -/
def ReplicaSet.core (rs : ReplicaSet) : String × Int32 × List OwnerReference :=
  (rs.name, rs.replicas, rs.owner_references)

/-- The ReplicaSets differ in their annotations at most. -/
structure Annotated (w w' : World) : Prop where
  core : w'.replicasets.items.map ReplicaSet.core = w.replicasets.items.map ReplicaSet.core
  pods : w'.pods = w.pods

namespace Annotated

variable {w' : World}

theorem refl (w : World) : Annotated w w := ⟨rfl, rfl⟩

theorem counts (h : Annotated w w') : counts d w' = counts d w := by
  have hcore : ∀ w : World, Deployments.counts d w =
      ((w.replicasets.items.map ReplicaSet.core).filter fun c => c.2.2.any fun owner =>
        owner.kind = "Deployment" ∧ owner.name = d.name ∧ owner.uid = d.uid).map
          fun c => (c.1, c.2.1) := by
    intro w
    rw [filter_map, map_map]
    rfl
  rw [hcore, hcore, h.core]

theorem set (h : Annotated w w') {rs : ReplicaSet}
    (hmem : rs.core ∈ w'.replicasets.items.map ReplicaSet.core) :
    Annotated w { w' with replicasets := w'.replicasets.set rs } := by
  obtain ⟨fresh, hfresh, hsame⟩ := mem_map.mp hmem
  refine ⟨Eq.trans ?_ h.core, h.pods⟩
  refine (map_map).trans (map_congr_left fun r hr => ?_)
  show ReplicaSet.core (if r.name = rs.name then rs else r) = r.core
  split_ifs with hname
  · have hname' : r.name = fresh.name := hname.trans (congrArg Prod.fst hsame).symm
    rw [w'.replicasets.eq_of_name hr hfresh hname', hsame]
  · rfl

theorem annotate (h : Annotated w w') (rs : ReplicaSet) (desired max_surge : Int32) :
    Annotated w ( set_desired_replicas_annotation w' rs desired max_surge) := by
  unfold set_desired_replicas_annotation
  cases hfind : w'.replicasets.find rs.name with
  | none => exact h
  | some fresh => exact h.set (mem_map.mpr ⟨fresh, (Roster.find_eq_some.mp hfind).1, rfl⟩)

theorem annotate_active (p : Platform) (d : Deployment) (owned : List ReplicaSet) :
    Annotated w (Deployments.annotate_active p d owned w) :=
  foldlRecOn _ _ (refl w) fun _ h rs _ => h.annotate rs _ _

theorem set_revisions (p : Platform) :
    Annotated w (Deployments.set_revisions p d (w.owned d) w) := by
  refine foldlRecOn _ _ (refl w) fun w' h rs hrs => ?_
  split_ifs
  · exact h.set (h.core ▸ mem_map.mpr ⟨rs, (mem_filter.mp hrs).1, rfl⟩)
  · exact h

end Annotated

end Deployments
