import Mathlib
import Rusternetes.Framework.Folds
import Rusternetes.Framework.Greedy

/-! # Preemption

    The dry run of preemption on a node: every pod of lower priority is removed, the
    preemptor must fit, and then the pods are reprieved one by one, those whose eviction
    would violate a disruption budget first. A pod is kept if the preemptor still fits with
    it back. The plugins' state and the view of the pods follow each removal and return.
-/

open List

namespace Preemption

open Framework

/-! ### Data -/

inductive Phase where
  | pending
  | active
  | running
  | succeeded
  | failed
  | unknown
  | terminating
  deriving DecidableEq

/-- The fields of a pod the dry run reads. -/
structure Pod where
  uid : String
  ns : Option String
  name : String
  labels : Option (List (String × String))
  priority : Option Int
  node_name : Option String
  nominated_node_name : Option String
  /-- `metadata.deletion_timestamp` is set. -/
  deleting : Bool
  phase : Option Phase
  start_time : Option Int
  deriving DecidableEq

def pod_key (p : Pod) : String := if p.uid ≠ "" then p.uid else p.ns.getD "" ++ "/" ++ p.name

def pod_priority (pod : Pod) : Int := pod.priority.getD 0

def counts_against_node (pod : Pod) : Bool :=
  pod.phase != some .succeeded && pod.phase != some .failed

/-- The order of two pods, with the clock's reading for each that has not started. -/
def more_important (now_a now_b : Int) (a b : Pod) : Ordering :=
  (compare (pod_priority b) (pod_priority a)).then
    (compare (a.start_time.getD now_a) (b.start_time.getD now_b))

/-- A sort by `more_important`. The clock moves between two comparisons, so only pods that
    have all started come out in order. -/
structure SortBy where
  sort : List Pod → List Pod
  perm : ∀ l, (sort l).Perm l
  sorted : ∀ l, (∀ p ∈ l, p.start_time.isSome = true) →
    (sort l).Pairwise fun a b => more_important 0 0 a b ≠ .gt

structure PodDisruptionBudget where
  ns : Option String
  /-- The selector is valid, does not select everything, and matches the labels. -/
  selects : List (String × String) → Bool
  /-- `status.disruptions_allowed`, if there is a status. -/
  disruptions_allowed : Option Int
  disrupted_pods : List String

inductive Code where
  | success
  | error
  | unschedulable
  | unschedulable_and_unresolvable
  | wait
  | skip
  | pending
  deriving DecidableEq

structure Status where
  code : Code
  reasons : List String
  deriving DecidableEq

def Status.is_success (s : Status) : Bool := s.code == .success

/-- The plugins, for one preemptor and node; `S` is the state of a scheduling cycle. -/
structure Plugins (S : Type) where
  run_pre_filter_plugins : S × Status
  run_pre_filter_extension_add_pod : S → Pod → List Pod → S × Status
  run_pre_filter_extension_remove_pod : S → Pod → List Pod → S × Status
  run_filter_plugins_with_nominated_pods : S → List Pod → List Pod → Status

def nominated_pods_for_node (pod : Pod) (all_pods : List Pod) (node_name : String) : List Pod :=
  all_pods.filter fun p =>
    !(p.name == pod.name && p.ns == pod.ns) && p.nominated_node_name == some node_name &&
      p.node_name.getD "" == "" && decide (pod_priority pod ≤ pod_priority p) && !p.deleting

/-! ### Budgets -/

/-- Whether the eviction of the pod counts against the budget. -/
def charged (pod : Pod) (pdb : PodDisruptionBudget) : Bool :=
  match pod.labels with
  | none | some [] => false
  | some labels => pdb.ns == pod.ns && pdb.selects labels && !pdb.disrupted_pods.contains pod.name

def spend (pod : Pod) (allowed : List (PodDisruptionBudget × Int)) :
    List (PodDisruptionBudget × Int) :=
  allowed.map fun b => if charged pod b.1 then (b.1, b.2 - 1) else b

def violations : List Pod → List (PodDisruptionBudget × Int) → List String
  | [], _ => []
  | pod :: pods, allowed =>
    let left := spend pod allowed
    let rest := violations pods left
    if left.any fun b => charged pod b.1 && decide (b.2 < 0) then pod_key pod :: rest else rest

/-- The keys of the pods whose eviction exceeds a budget. -/
def pods_with_pdb_violation (pods : List Pod) (pdbs : List PodDisruptionBudget) : List String :=
  violations pods (pdbs.map fun pdb => (pdb, pdb.disruptions_allowed.getD 0))

/-- The pods before it in the order use up a budget that its eviction counts against. -/
def violates (order : List Pod) (pdbs : List PodDisruptionBudget) (pod : Pod) : Bool :=
  pdbs.any fun pdb => charged pod pdb && decide (pdb.disruptions_allowed.getD 0 ≤
    ((order.takeWhile fun p => pod_key p != pod_key pod).countP (charged · pdb) : Int))

theorem violations_subset (pods : List Pod) (allowed : List (PodDisruptionBudget × Int)) :
    violations pods allowed ⊆ pods.map pod_key := by
  induction pods generalizing allowed with
  | nil => exact nil_subset _
  | cons p pods ih =>
    rw [violations, map_cons]
    split_ifs
    · exact cons_subset_cons _ (ih _)
    · exact subset_cons_of_subset _ (ih _)

theorem mem_violations_iff {pods : List Pod} (hnodup : (pods.map pod_key).Nodup) {v : Pod}
    (hv : v ∈ pods) (allowed : List (PodDisruptionBudget × Int)) :
    pod_key v ∈ violations pods allowed ↔ ∃ b ∈ allowed, charged v b.1 = true ∧
      b.2 ≤ ((pods.takeWhile fun p => pod_key p != pod_key v).countP (charged · b.1) : Int) := by
  induction pods generalizing allowed with
  | nil => cases hv
  | cons p pods ih =>
    rw [map_cons, nodup_cons] at hnodup
    rw [violations]
    rcases mem_cons.mp hv with rfl | hv
    · -- none was evicted before it, and no other pod has its key
      have hlater : pod_key v ∉ violations pods (spend v allowed) :=
        fun hmem => hnodup.1 (violations_subset _ _ hmem)
      have hleft : ((spend v allowed).any fun b => charged v b.1 && decide (b.2 < 0)) = true ↔
          ∃ b ∈ allowed, charged v b.1 = true ∧ b.2 ≤ 0 := by
        simp only [spend, any_map, any_eq_true, Function.comp_apply]
        refine exists_congr fun b => and_congr_right fun _ => ?_
        by_cases hb : charged v b.1 = true
        · simp [hb]
          omega
        · simp [hb]
      rw [takeWhile_cons_of_neg (by simp)]
      simp only [countP_nil, Nat.cast_zero]
      rw [← hleft]
      split_ifs with hany <;> simp [hany, hlater]
    · have hne : pod_key v ≠ pod_key p := fun heq => hnodup.1 (heq ▸ mem_map_of_mem hv)
      have hrest : pod_key v ∈ violations pods (spend p allowed) ↔ ∃ b ∈ allowed,
          charged v b.1 = true ∧ b.2 ≤ (((p :: pods).takeWhile fun q =>
            pod_key q != pod_key v).countP (charged · b.1) : Int) := by
        rw [ih hnodup.2 hv, takeWhile_cons_of_pos (by simpa using hne.symm)]
        simp only [spend, mem_map, exists_exists_and_eq_and, countP_cons]
        refine exists_congr fun b => and_congr_right fun _ => ?_
        by_cases hb : charged p b.1 = true
        · simp [hb]
        · simp [hb]
      rw [← hrest]
      split_ifs <;> simp [hne]

theorem mem_pods_with_pdb_violation {pods : List Pod} (hnodup : (pods.map pod_key).Nodup)
    {v : Pod} (hv : v ∈ pods) (pdbs : List PodDisruptionBudget) :
    (pods_with_pdb_violation pods pdbs).contains (pod_key v) = violates pods pdbs v := by
  rw [Bool.eq_iff_iff, contains_iff_mem, pods_with_pdb_violation, mem_violations_iff hnodup hv]
  simp [violates]

/-! ### The dry run -/

structure NodeVictims where
  victims : List Pod
  num_pdb_violations : Int
  deriving DecidableEq

/-- The dry run between two pods. -/
structure Dry (S : Type) where
  removed : Finset String
  state : S
  victims : List Pod := []
  num_violating : Int := 0

section

variable {S : Type} (fw : Plugins S) (pod : Pod) (node_name : String) (all_pods : List Pod)

/-- The pods that may be evicted. -/
def potential : List Pod :=
  all_pods.filter fun p => p.node_name == some node_name && counts_against_node p &&
    decide (pod_priority p < pod_priority pod)

def view_without (removed : Finset String) : List Pod :=
  all_pods.filter fun p => decide (pod_key p ∉ removed)

def fits (state : S) (view : List Pod) : Status :=
  fw.run_filter_plugins_with_nominated_pods state view (nominated_pods_for_node pod view node_name)

/-- The loop that takes the pods out of the plugins' state. -/
def remove_all (view : List Pod) : List Pod → S → Except Status S
  | [], state => .ok state
  | p :: ps, state =>
    let (state, status) := fw.run_pre_filter_extension_remove_pod state p view
    if status.is_success then remove_all view ps state else .error status

/-- The loop over one group of pods. -/
def reprieve (counts_violation : Bool) : List Pod → Dry S → Except Status (Dry S)
  | [], d => .ok d
  | p :: ps, d =>
    let removed := d.removed.erase (pod_key p)
    let view := view_without all_pods removed
    let (state, status) := fw.run_pre_filter_extension_add_pod d.state p view
    if !status.is_success then .error status
    else if (fits fw pod node_name state view).is_success then
      reprieve counts_violation ps { d with removed := removed, state := state }
    else
      let removed := insert (pod_key p) removed
      let (state, status) :=
        fw.run_pre_filter_extension_remove_pod state p (view_without all_pods removed)
      if !status.is_success then .error status
      else reprieve counts_violation ps
        { removed := removed
          state := state
          victims := d.victims ++ [p]
          num_violating := if counts_violation then d.num_violating + 1 else d.num_violating }

variable (pdbs : List PodDisruptionBudget) (sort resort : SortBy)

/-- The pods in the order of their reprieve whose eviction violates a budget, or does not. -/
def group (violating : Bool) : List Pod :=
  let sorted := sort.sort (potential pod node_name all_pods)
  sorted.filter fun p => (pods_with_pdb_violation sorted pdbs).contains (pod_key p) == violating

/-- The state the dry run starts from: the cycle's, or that of a PreFilter of its own. -/
def start (cycle_state : Option S) : Except Status S :=
  match cycle_state with
  | some state => .ok state
  | none =>
    let (state, status) := fw.run_pre_filter_plugins
    if status.is_success then .ok state else .error status

def select_victims_on_node_with_state (cycle_state : Option S) : Except Status NodeVictims :=
  let candidates := potential pod node_name all_pods
  let removed := (candidates.map pod_key).toFinset
  let view := view_without all_pods removed
  let violating := group pod node_name all_pods pdbs sort true
  let non_violating := group pod node_name all_pods pdbs sort false
  if candidates.isEmpty then
    .error ⟨.unschedulable_and_unresolvable, ["No preemption victims found for incoming pod"]⟩
  else do
    let state ← start fw cycle_state
    let state ← remove_all fw view candidates state
    let status := fits fw pod node_name state view
    if !status.is_success then .error status
    else do
      let d ← reprieve fw pod node_name all_pods true violating { removed, state }
      let d ← reprieve fw pod node_name all_pods false non_violating d
      let victims :=
        if violating.isEmpty || non_violating.isEmpty then d.victims else resort.sort d.victims
      .ok ⟨victims, d.num_violating⟩

/-! ### The plugins' part -/

def candidates : Finset String := ((potential pod node_name all_pods).map pod_key).toFinset

/-- `Reached R s`: from `s₀`, taking candidates out and putting them back, `R` are out in state
    `s`. The plugins see the pods as the dry run shows them. -/
inductive Reached (s₀ : S) : Finset String → S → Prop where
  | start : Reached s₀ ∅ s₀
  | remove {R : Finset String} {s : S} {p : Pod} (hs : Reached s₀ R s)
      (hp : p ∈ potential pod node_name all_pods) (hR : pod_key p ∉ R) {R' : Finset String}
      (hview : R' = candidates pod node_name all_pods ∨ R' = insert (pod_key p) R) :
      Reached s₀ (insert (pod_key p) R)
        (fw.run_pre_filter_extension_remove_pod s p (view_without all_pods R')).1
  | add {R : Finset String} {s : S} {p : Pod} (hs : Reached s₀ R s)
      (hp : p ∈ potential pod node_name all_pods) (hR : pod_key p ∈ R) :
      Reached s₀ (R.erase (pod_key p))
        (fw.run_pre_filter_extension_add_pod s p (view_without all_pods (R.erase (pod_key p)))).1

/-- The outcome of the filters depends on the set of removed candidates only. -/
def Depends (s₀ : S) (suffices_ : Finset String → Prop) : Prop :=
  ∀ R s, Reached fw pod node_name all_pods s₀ R s →
    ((fits fw pod node_name s (view_without all_pods R)).is_success = true ↔ suffices_ R)

end

section

variable {S : Type} {fw : Plugins S} {pod : Pod} {node_name : String} {all_pods : List Pod}
  {pdbs : List PodDisruptionBudget} {sort resort : SortBy}

variable {s₀ : S}

/-- Where `AddPod` and `RemovePod` undo each other, the state follows the removed set. -/
theorem Reached.eq_of_inverse {s : S} {R : Finset String}
    (h : Reached fw pod node_name all_pods s₀ R s) (state : Finset String → S) (h₀ : state ∅ = s₀)
    (hremove : ∀ R p view, p ∈ potential pod node_name all_pods → pod_key p ∉ R →
      (fw.run_pre_filter_extension_remove_pod (state R) p view).1 = state (insert (pod_key p) R))
    (hadd : ∀ R p view, p ∈ potential pod node_name all_pods → pod_key p ∈ R →
      (fw.run_pre_filter_extension_add_pod (state R) p view).1 = state (R.erase (pod_key p))) :
    s = state R := by
  induction h with
  | start => exact h₀.symm
  | remove _ hp hR _ ih => rw [ih, hremove _ _ _ hp hR]
  | add _ hp hR ih => rw [ih, hadd _ _ _ hp hR]

theorem reached_remove_all {ps : List Pod} (hnodup : (ps.map pod_key).Nodup)
    (hps : ps ⊆ potential pod node_name all_pods) {R : Finset String} {s s' : S}
    (hs : Reached fw pod node_name all_pods s₀ R s) (hout : ∀ p ∈ ps, pod_key p ∉ R)
    (h : remove_all fw (view_without all_pods (candidates pod node_name all_pods)) ps s = .ok s') :
    Reached fw pod node_name all_pods s₀ (R ∪ (ps.map pod_key).toFinset) s' := by
  induction ps generalizing R s with
  | nil =>
    cases h
    simpa using hs
  | cons p ps ih =>
    rw [map_cons, nodup_cons] at hnodup
    obtain ⟨hp, hps⟩ := cons_subset.mp hps
    have hnext := Reached.remove hs hp (hout p (.head _)) (.inl rfl)
    unfold remove_all at h
    simp only at h
    split at h
    · have hreached := ih hnodup.2 hps hnext ?_ h
      · rwa [Finset.insert_union, ← Finset.union_insert, ← toFinset_cons] at hreached
      · intro q hq hmem
        rcases Finset.mem_insert.mp hmem with heq | hmem
        · exact hnodup.1 (heq ▸ mem_map_of_mem hq)
        · exact hout q (.tail _ hq) hmem
    · cases h

/-- **One group**: the reprieve thins the removed set along the group, with the plugins' state
    in step, and its victims are those that stay removed. -/
theorem reprieve_thins {suffices_ : Finset String → Prop}
    (hdep : Depends fw pod node_name all_pods s₀ suffices_) {counts : Bool} {ps : List Pod}
    {d d' : Dry S} (h : reprieve fw pod node_name all_pods counts ps d = .ok d')
    (hs : Reached fw pod node_name all_pods s₀ d.removed d.state)
    (hps : ps ⊆ potential pod node_name all_pods) (hnodup : (ps.map pod_key).Nodup)
    (hin : ∀ p ∈ ps, pod_key p ∈ d.removed) :
    Greedy.Thins suffices_ (ps.map pod_key) d.removed d'.removed ∧
      Reached fw pod node_name all_pods s₀ d'.removed d'.state ∧
      d'.victims = d.victims ++ ps.filter (fun p => decide (pod_key p ∈ d'.removed)) ∧
      d'.num_violating = d.num_violating + if counts then
        ((ps.filter fun p => decide (pod_key p ∈ d'.removed)).length : Int) else 0 := by
  induction ps generalizing d with
  | nil =>
    cases h
    exact ⟨.nil _, hs, by simp, by simp⟩
  | cons p ps ih =>
    rw [map_cons, nodup_cons] at hnodup
    obtain ⟨hpotential, hps⟩ := cons_subset.mp hps
    have hp := hin p (.head _)
    have hback := Reached.add hs hpotential hp
    have hfits := hdep _ _ hback
    have hothers : ∀ q ∈ ps, pod_key q ∈ d.removed.erase (pod_key p) := by
      intro q hq
      refine Finset.mem_erase.mpr ⟨?_, hin q (.tail _ hq)⟩
      exact fun heq => hnodup.1 (heq ▸ mem_map_of_mem hq)
    unfold reprieve at h
    simp only at h
    split at h
    · cases h
    split at h
    · -- the pod goes back and stays
      rename_i hok
      obtain ⟨hthins, hreached, hvictims, hnum⟩ := ih h hback hps hnodup.2 hothers
      have hout : pod_key p ∉ d'.removed :=
        fun hmem => Finset.notMem_erase _ _ (hthins.subset hmem)
      rw [filter_cons_of_neg (by simpa using hout)]
      exact ⟨.drop (hfits.mp hok) hthins, hreached, hvictims, hnum⟩
    · -- the preemptor needs its place
      rename_i hnot
      split at h
      · cases h
      have hagain := Reached.remove hback hpotential (Finset.notMem_erase _ _) (.inr rfl)
      rw [Finset.insert_erase hp] at h hagain
      obtain ⟨hthins, hreached, hvictims, hnum⟩ := ih h hagain hps hnodup.2
        fun q hq => hin q (.tail _ hq)
      have hstays : pod_key p ∈ d'.removed := hthins.mem_of_notMem hp hnodup.1
      rw [filter_cons_of_pos (by simpa using hstays)]
      refine ⟨.keep (fun hless => hnot (hfits.mpr hless)) hthins, hreached, ?_, ?_⟩
      · simpa using hvictims
      · rw [hnum]
        cases counts <;> simp
        omega

/-- **Both groups**: what stays of the first is not touched by the second. -/
theorem reprieve_groups {suffices_ : Finset String → Prop}
    (hdep : Depends fw pod node_name all_pods s₀ suffices_) {V N : List Pod} {d d₁ d₂ : Dry S}
    (h₁ : reprieve fw pod node_name all_pods true V d = .ok d₁)
    (h₂ : reprieve fw pod node_name all_pods false N d₁ = .ok d₂)
    (hs : Reached fw pod node_name all_pods s₀ d.removed d.state)
    (hps : V ++ N ⊆ potential pod node_name all_pods) (hnodup : ((V ++ N).map pod_key).Nodup)
    (hin : ∀ p ∈ V ++ N, pod_key p ∈ d.removed) :
    Greedy.Thins suffices_ ((V ++ N).map pod_key) d.removed d₂.removed ∧
      d₂.victims = d.victims ++ (V ++ N).filter (fun p => decide (pod_key p ∈ d₂.removed)) ∧
      d₂.num_violating = d.num_violating +
        ((V.filter fun p => decide (pod_key p ∈ d₂.removed)).length : Int) := by
  rw [map_append, nodup_append] at hnodup
  obtain ⟨hnodupV, hnodupN, hdisjoint⟩ := hnodup
  obtain ⟨hsubV, hsubN⟩ := append_subset.mp hps
  obtain ⟨hthinsV, hreached, hvictimsV, hnumV⟩ := reprieve_thins hdep h₁ hs hsubV hnodupV
    fun p hp => hin p (mem_append_left _ hp)
  have hkeptN : ∀ p ∈ N, pod_key p ∈ d₁.removed := by
    intro p hp
    refine hthinsV.mem_of_notMem (hin p (mem_append_right _ hp)) fun hmem => ?_
    exact hdisjoint _ hmem _ (mem_map_of_mem hp) rfl
  obtain ⟨hthinsN, _, hvictimsN, hnumN⟩ := reprieve_thins hdep h₂ hreached hsubN hnodupN hkeptN
  have hsameV : V.filter (fun p => decide (pod_key p ∈ d₁.removed)) =
      V.filter (fun p => decide (pod_key p ∈ d₂.removed)) := by
    apply filter_congr
    intro p hp
    refine decide_eq_decide.mpr ⟨fun hmem => ?_, fun hmem => hthinsN.subset hmem⟩
    exact hthinsN.mem_of_notMem hmem fun hmemN =>
      hdisjoint _ (mem_map_of_mem hp) _ hmemN rfl
  refine ⟨?_, ?_, ?_⟩
  · rw [map_append]
    exact hthinsV.append hthinsN
  · rw [hvictimsN, hvictimsV, hsameV, filter_append, append_assoc]
  · rw [hnumN, hnumV, hsameV]
    simp

/-- What a successful dry run went through. -/
theorem select_eq_ok {cycle_state : Option S} {r : NodeVictims}
    (h : select_victims_on_node_with_state fw pod node_name all_pods pdbs sort resort cycle_state =
      .ok r) :
    ∃ s₀ s d₁ d₂, start fw cycle_state = .ok s₀ ∧
      remove_all fw (view_without all_pods (candidates pod node_name all_pods))
        (potential pod node_name all_pods) s₀ = .ok s ∧
      (fits fw pod node_name s (view_without all_pods
        (candidates pod node_name all_pods))).is_success = true ∧
      reprieve fw pod node_name all_pods true (group pod node_name all_pods pdbs sort true)
        { removed := candidates pod node_name all_pods, state := s } = .ok d₁ ∧
      reprieve fw pod node_name all_pods false (group pod node_name all_pods pdbs sort false) d₁ =
        .ok d₂ ∧
      r.victims.Perm d₂.victims ∧ r.num_pdb_violations = d₂.num_violating := by
  unfold select_victims_on_node_with_state at h
  simp only at h
  split at h
  · cases h
  obtain ⟨s₀, hs₀, h⟩ := Folds.bind_eq_ok.mp h
  obtain ⟨s, hs, h⟩ := Folds.bind_eq_ok.mp h
  split at h
  · cases h
  rename_i hfits
  obtain ⟨d₁, hd₁, h⟩ := Folds.bind_eq_ok.mp h
  obtain ⟨d₂, hd₂, h⟩ := Folds.bind_eq_ok.mp h
  cases h
  rw [Bool.not_eq_true, Bool.not_eq_false'] at hfits
  refine ⟨s₀, s, d₁, d₂, hs₀, hs, hfits, hd₁, hd₂, ?_, rfl⟩
  show (if _ then _ else _ : List Pod).Perm d₂.victims
  split
  · exact .refl _
  · exact resort.perm _

end

theorem group_eq {pod : Pod} {node_name : String} {all_pods : List Pod}
    (hkeys : (all_pods.map pod_key).Nodup) (pdbs : List PodDisruptionBudget) (sort : SortBy)
    (violating : Bool) :
    group pod node_name all_pods pdbs sort violating =
      (sort.sort (potential pod node_name all_pods)).filter fun p =>
        violates (sort.sort (potential pod node_name all_pods)) pdbs p == violating := by
  have hnodup : ((sort.sort (potential pod node_name all_pods)).map pod_key).Nodup :=
    ((sort.perm _).map pod_key).nodup_iff.mpr (hkeys.sublist (filter_sublist.map _))
  exact filter_congr fun p hp => by rw [mem_pods_with_pdb_violation hnodup hp]

theorem filter_groups {α : Type} (p q : α → Bool) (l : List α) :
    ((l.filter p ++ l.filter fun x => !p x).filter q).filter p = (l.filter p).filter q := by
  have hfirst : (l.filter p).filter p = l.filter p := by simp
  have hsecond : (l.filter fun x => !p x).filter p = [] := by simp
  rw [filter_append, filter_append, filter_comm p q (l.filter p), hfirst,
    filter_comm p q (l.filter fun x => !p x), hsecond, filter_nil, append_nil]

/-- **Preemption picks a sufficient and minimal set of victims.** A pod that violates a budget is
    a victim only if the preemptor does not fit when it is kept beside those kept before it; and
    the victims that violate one are counted. -/
theorem victims_sufficient_and_minimal {S : Type} {fw : Plugins S} {pod : Pod}
    {node_name : String} {all_pods : List Pod} {pdbs : List PodDisruptionBudget}
    {sort resort : SortBy} {cycle_state : Option S} {suffices_ : Finset String → Prop}
    (hkeys : (all_pods.map pod_key).Nodup)
    (hdep : ∀ s₀, start fw cycle_state = .ok s₀ →
      Depends fw pod node_name all_pods s₀ suffices_)
    (hmono : ∀ R R', R ⊆ R' → R' ⊆ candidates pod node_name all_pods →
      suffices_ R → suffices_ R')
    {r : NodeVictims}
    (h : select_victims_on_node_with_state fw pod node_name all_pods pdbs sort resort cycle_state =
      .ok r) :
    let order := sort.sort (potential pod node_name all_pods)
    (∀ v ∈ r.victims, v ∈ all_pods ∧ v.node_name = some node_name ∧
      pod_priority v < pod_priority pod) ∧
    suffices_ (r.victims.map pod_key).toFinset ∧
    (∀ R, R ⊂ (r.victims.map pod_key).toFinset → ¬suffices_ R) ∧
    (∀ pre v post, order.filter (violates order pdbs) = pre ++ v :: post → v ∈ r.victims →
      ¬suffices_ ((candidates pod node_name all_pods \
        ((pre.map pod_key).toFinset \ (r.victims.map pod_key).toFinset)).erase (pod_key v))) ∧
    r.num_pdb_violations = ((r.victims.filter (violates order pdbs)).length : Int) := by
  obtain ⟨s₀, s, d₁, d₂, hs₀, hs, hall, hd₁, hd₂, hperm, hnum⟩ := select_eq_ok h
  have hdep := hdep s₀ hs₀
  intro order
  set U := candidates pod node_name all_pods
  set V := order.filter (violates order pdbs) with hV
  obtain ⟨N, hN⟩ : ∃ N, N = order.filter fun p => !violates order pdbs p := ⟨_, rfl⟩
  rw [group_eq hkeys, show (order.filter fun p => violates order pdbs p == true) = V by
    simp only [beq_true, hV]] at hd₁
  rw [group_eq hkeys, show (order.filter fun p => violates order pdbs p == false) = N by
    simp only [beq_false, hN]] at hd₂
  have hgroups : (V ++ N).Perm (potential pod node_name all_pods) := by
    rw [hV, hN]
    exact (filter_append_perm _ _).trans (sort.perm _)
  have hcandidates : ((potential pod node_name all_pods).map pod_key).Nodup :=
    hkeys.sublist (filter_sublist.map _)
  have hnodup : ((V ++ N).map pod_key).Nodup :=
    (hgroups.map pod_key).nodup_iff.mpr hcandidates
  -- all candidates out, then the two groups
  have hstart : Reached fw pod node_name all_pods s₀ U s := by
    have hremoved := reached_remove_all hcandidates (Subset.refl _) .start
      (fun _ _ => Finset.notMem_empty _) hs
    rwa [Finset.empty_union] at hremoved
  obtain ⟨hthins, hvictims, hcount⟩ := reprieve_groups hdep hd₁ hd₂ hstart hgroups.subset hnodup
    fun p hp => mem_toFinset.mpr (mem_map_of_mem (hgroups.mem_iff.mp hp))
  rw [nil_append] at hvictims
  have hmem : ∀ v, v ∈ r.victims ↔ v ∈ V ++ N ∧ pod_key v ∈ d₂.removed := by
    intro v
    rw [hperm.mem_iff, hvictims, mem_filter, decide_eq_true_iff]
  have hset : (r.victims.map pod_key).toFinset = d₂.removed := by
    ext k
    rw [mem_toFinset, mem_map]
    constructor
    · rintro ⟨v, hv, rfl⟩
      exact ((hmem v).mp hv).2
    · intro hk
      obtain ⟨p, hp, rfl⟩ := mem_map.mp (mem_toFinset.mp (hthins.subset hk))
      exact ⟨p, (hmem p).mpr ⟨hgroups.mem_iff.mpr hp, hk⟩, rfl⟩
  rw [hset]
  refine ⟨?_, ?_, ?_, ?_, ?_⟩
  · intro v hv
    obtain ⟨hall, hcond⟩ := mem_filter.mp (hgroups.mem_iff.mp ((hmem v).mp hv).1)
    simp only [Bool.and_eq_true, beq_iff_eq, decide_eq_true_eq] at hcond
    exact ⟨hall, hcond.1.1, hcond.2⟩
  · exact hthins.enough ((hdep U s hstart).mp hall)
  · intro R hR
    refine hthins.minimal ?_ hmono hR
    intro k hk
    obtain ⟨p, hp, rfl⟩ := mem_map.mp (mem_toFinset.mp hk)
    exact mem_map_of_mem (hgroups.mem_iff.mpr hp)
  · intro pre v post hpre hv
    have horder : (V ++ N).map pod_key =
        pre.map pod_key ++ pod_key v :: (post ++ N).map pod_key := by
      rw [hpre]
      simp
    rw [horder] at hthins hnodup
    exact hthins.needed hnodup ((hmem v).mp hv).2
  · rw [hnum, hcount, ((hperm.filter _).length_eq), hvictims, hV, hN, filter_groups]
    simp

namespace Sample

theorem more_important_iff {a b : Pod} : more_important 0 0 a b ≠ .gt ↔
    pod_priority b < pod_priority a ∨ pod_priority b = pod_priority a ∧
      a.start_time.getD 0 ≤ b.start_time.getD 0 := by
  unfold more_important
  rw [ne_eq, Ordering.then_eq_gt, compare_gt_iff_gt, compare_eq_iff_eq, compare_gt_iff_gt]
  omega

/-- A sort that reads one time from the clock. -/
def by_importance : SortBy where
  sort l := l.insertionSort fun a b => more_important 0 0 a b ≠ .gt
  perm l := List.perm_insertionSort _ l
  sorted l _ := by
    have htotal : Std.Total fun a b : Pod => more_important 0 0 a b ≠ .gt := by
      refine ⟨fun a b => ?_⟩
      rw [more_important_iff, more_important_iff]
      omega
    have htrans : IsTrans Pod fun a b => more_important 0 0 a b ≠ .gt := by
      refine ⟨fun a b c => ?_⟩
      rw [more_important_iff, more_important_iff, more_important_iff]
      omega
    exact List.pairwise_insertionSort _ l

/-- Plugins that count who is out, for a preemptor that needs the place of one pod. -/
def plugins : Plugins (Finset String) where
  run_pre_filter_plugins := (∅, ⟨.success, []⟩)
  run_pre_filter_extension_add_pod s p _ := (s.erase (pod_key p), ⟨.success, []⟩)
  run_pre_filter_extension_remove_pod s p _ := (insert (pod_key p) s, ⟨.success, []⟩)
  run_filter_plugins_with_nominated_pods s _ _ :=
    ⟨if "b" ∈ s then .success else .unschedulable, []⟩

def bound (uid : String) : Pod :=
  ⟨uid, some "ns", uid, some [("app", "x")], none, some "node", none, false, none, none⟩

def budget : PodDisruptionBudget := ⟨some "ns", fun _ => true, some 1, []⟩

def preemptor : Pod := ⟨"p", some "ns", "p", none, some 10, none, none, false, none, none⟩

end Sample

/-- Of two pods the one whose place is needed is evicted, which the budget does not allow. -/
theorem needed_pod_evicted :
    ∃ r, select_victims_on_node_with_state Sample.plugins Sample.preemptor "node"
        [Sample.bound "a", Sample.bound "b"] [Sample.budget] Sample.by_importance
          Sample.by_importance none = .ok r ∧
      r.victims = [Sample.bound "b"] ∧ r.num_pdb_violations = 1 ∧
        ¬"b" ∈ (∅ : Finset String) := by
  have hselect : select_victims_on_node_with_state Sample.plugins Sample.preemptor "node"
      [Sample.bound "a", Sample.bound "b"] [Sample.budget] Sample.by_importance
        Sample.by_importance none = .ok ⟨[Sample.bound "b"], 1⟩ := by decide +kernel
  have hdep : ∀ s₀, start Sample.plugins none = .ok s₀ → Depends Sample.plugins Sample.preemptor
      "node" [Sample.bound "a", Sample.bound "b"] s₀ fun R => "b" ∈ R := by
    intro s₀ h₀ R s hreached
    cases h₀
    rw [hreached.eq_of_inverse id rfl (fun _ _ _ _ _ => rfl) fun _ _ _ _ _ => rfl]
    by_cases hb : "b" ∈ R <;> simp [fits, Sample.plugins, Status.is_success, hb]
  obtain ⟨-, -, hminimal, -, hnum⟩ :=
    victims_sufficient_and_minimal (by decide) hdep (fun _ _ hsub _ hb => hsub hb) hselect
  exact ⟨_, hselect, rfl, hnum.trans (by decide +kernel), hminimal ∅ (by decide)⟩

end Preemption
