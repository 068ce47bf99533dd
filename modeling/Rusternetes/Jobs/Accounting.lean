import Rusternetes.Jobs.Tracking

/-! # Accounting of Pods

    A status is in balance if its counters are the lengths of the tally, no UID is
    accounted for twice, each stands for a pod that has finished, and no pod that was
    counted has the finalizer. Cleaning and claiming keep the balance.
-/

open List

namespace Jobs

/-! ### Finalizers -/

variable (pod : Pod) (count : Option Int) (list : Option (List String)) (uids : Finset String)
  (u : UncountedTerminatedPods)

theorem has_remove_tracking_finalizer :
    has_job_tracking_finalizer (remove_tracking_finalizer pod).2 = false := by
  unfold remove_tracking_finalizer has_job_tracking_finalizer
  cases hfinalizers : pod.finalizers with
  | none => simp [hfinalizers]
  | some =>
    dsimp only
    split_ifs with hempty
    · rfl
    · simp

theorem has_of_remove_tracking_finalizer {pod : Pod}
    (h : (remove_tracking_finalizer pod).1 = false) : has_job_tracking_finalizer pod = false := by
  unfold remove_tracking_finalizer at h
  unfold has_job_tracking_finalizer
  cases hfinalizers : pod.finalizers with
  | none => rfl
  | some finalizers =>
    rw [hfinalizers] at h
    have hlength : (finalizers.filter fun f => f != JOB_TRACKING_FINALIZER).length =
        finalizers.length := by simpa using h
    have hall := length_filter_eq_length_iff.mp hlength
    rw [Option.any_some, any_eq_false]
    intro f hf
    simpa using hall f hf

/-! ### Balance -/

def settled (pods : List Pod) (uid : String) : Prop :=
  ∀ p ∈ pods, p.uid = uid → has_job_tracking_finalizer p = false

def accounted (tally : Tally) (uncounted : UncountedTerminatedPods) : List String :=
  tally.succeeded ++ tally.failed ++ uncounted.parked

structure Balanced (pods : List Pod) (terminated : Finset String) (succeeded failed : Int)
    (tally : Tally) (uncounted : UncountedTerminatedPods) : Prop where
  succeeded_eq : succeeded = tally.succeeded.length
  failed_eq : failed = tally.failed.length
  nodup : (accounted tally uncounted).Nodup
  terminated : ∀ uid ∈ accounted tally uncounted, uid ∈ terminated
  settled : ∀ uid ∈ tally.succeeded ++ tally.failed, settled pods uid

variable {pods : List Pod} {terminated : Finset String} {succeeded failed : Int} {tally : Tally}
  {uncounted : UncountedTerminatedPods}

/-! ### Cleaning -/

theorem clean_list_spec :
    (clean_list count list uids).2.2.getD [] = (list.getD []).filter (fun uid => uid ∈ uids) ∧
      (clean_list count list uids).2.1.getD 0 =
        count.getD 0 + ((list.getD []).filter fun uid => uid ∉ uids).length := by
  cases list with
  | none => simp [clean_list]
  | some list =>
    have hlength : list.length = (list.filter fun uid => uid ∈ uids).length +
        (list.filter fun uid => uid ∉ uids).length := by
      have hsum := length_eq_length_filter_add (l := list) fun uid => decide (uid ∈ uids)
      simpa using hsum
    unfold clean_list
    dsimp only
    split_ifs with hfolded
    · refine ⟨rfl, ?_⟩
      rw [Option.getD_some, Option.getD_some]
      omega
    · refine ⟨rfl, ?_⟩
      rw [Option.getD_some]
      show count.getD 0 = _
      omega

theorem clean_list_mono : count.getD 0 ≤ (clean_list count list uids).2.1.getD 0 := by
  rw [(clean_list_spec count list uids).2]
  omega

theorem accounted_clean (tally : Tally) (uncounted : UncountedTerminatedPods) (s f : Option Int)
    (uids : Finset String) :
    (accounted (tally.count uncounted uids)
      (clean_uncounted_pods_without_finalizers s f uncounted uids).uncounted).Perm
        (accounted tally uncounted) := by
  have hsucceeded := (clean_list_spec s uncounted.succeeded uids).1
  have hfailed := (clean_list_spec f uncounted.failed uids).1
  have hsplit : ∀ l : List String, ((l.filter fun uid => uid ∈ uids) ++
      l.filter fun uid => uid ∉ uids).Perm l := by
    intro l
    have hperm := filter_append_perm (fun uid => decide (uid ∈ uids)) l
    simpa using hperm
  have hs := hsplit (uncounted.succeeded.getD [])
  have hf := hsplit (uncounted.failed.getD [])
  unfold accounted Tally.count clean_uncounted_pods_without_finalizers
    UncountedTerminatedPods.parked
  rw [hsucceeded, hfailed, perm_iff_count]
  intro uid
  have hcs := hs.count_eq uid
  have hcf := hf.count_eq uid
  simp only [count_append] at hcs hcf ⊢
  omega

/-- **Cleaning keeps the balance**: what leaves the lists has no finalizer. -/
theorem Balanced.clean {s f : Option Int}
    (h : Balanced pods terminated (s.getD 0) (f.getD 0) tally uncounted) {uids : Finset String}
    (hsettled : ∀ uid ∈ uncounted.parked, uid ∉ uids → Jobs.settled pods uid) :
    let cleaned := clean_uncounted_pods_without_finalizers s f uncounted uids
    Balanced pods terminated (cleaned.succeeded.getD 0) (cleaned.failed.getD 0)
      (tally.count uncounted uids) cleaned.uncounted := by
  have hperm := accounted_clean tally uncounted s f uids
  have hsucceeded := (clean_list_spec s uncounted.succeeded uids).2
  have hfailed := (clean_list_spec f uncounted.failed uids).2
  constructor
  · show (clean_list s uncounted.succeeded uids).2.1.getD 0 = _
    rw [hsucceeded, h.succeeded_eq]
    simp [Tally.count]
  · show (clean_list f uncounted.failed uids).2.1.getD 0 = _
    rw [hfailed, h.failed_eq]
    simp [Tally.count]
  · exact hperm.nodup_iff.mpr h.nodup
  · intro uid huid
    exact h.terminated uid (hperm.mem_iff.mp huid)
  · intro uid huid
    have hparked : ∀ l : List String, (∀ u ∈ l, u ∈ uncounted.parked) →
        uid ∈ l.filter (fun uid => uid ∉ uids) → Jobs.settled pods uid := by
      intro l hl hmem
      obtain ⟨hmem, hnot⟩ := mem_filter.mp hmem
      exact hsettled uid (hl uid hmem) (of_decide_eq_true hnot)
    rcases mem_append.mp huid with hmem | hmem <;> rcases mem_append.mp hmem with hold | hnew
    · exact h.settled uid (mem_append_left _ hold)
    · exact hparked _ (fun u hu => mem_append_left _ hu) hnew
    · exact h.settled uid (mem_append_right _ hold)
    · exact hparked _ (fun u hu => mem_append_right _ hu) hnew

/-! ### Claiming -/

variable {uid : String} {o : TrackOptions}

theorem uncounted_has_iff {list : Option (List String)} :
    uncounted_has list uid = true ↔ uid ∈ list.getD [] := by
  cases list with
  | none | some list => simp [uncounted_has]

theorem Balanced.push (h : Balanced pods terminated succeeded failed tally uncounted)
    (hcounted : uid ∉ tally.succeeded ++ tally.failed)
    (hsucceeded : uid ∉ uncounted.succeeded.getD []) (hfailed : uid ∉ uncounted.failed.getD [])
    (huid : uid ∈ terminated) {uncounted' : UncountedTerminatedPods}
    (hpush : uncounted'.parked.Perm (uid :: uncounted.parked)) :
    Balanced pods terminated succeeded failed tally uncounted' := by
  have hnew : uid ∉ accounted tally uncounted := by
    intro hmem
    rcases mem_append.mp hmem with hmem | hmem
    · exact hcounted hmem
    · exact (mem_append.mp hmem).elim hsucceeded hfailed
  have hperm : (accounted tally uncounted').Perm (uid :: accounted tally uncounted) := by
    refine (hpush.append_left _).trans ?_
    exact perm_middle
  refine ⟨h.succeeded_eq, h.failed_eq, ?_, ?_, h.settled⟩
  · exact hperm.nodup_iff.mpr (nodup_cons.mpr ⟨hnew, h.nodup⟩)
  · intro u hu
    rcases mem_cons.mp (hperm.mem_iff.mp hu) with rfl | hold
    · exact huid
    · exact h.terminated u hold

theorem parked_push_succeeded (uid : String) :
    (u.push_succeeded uid).parked.Perm (uid :: u.parked) := by
  unfold UncountedTerminatedPods.push_succeeded UncountedTerminatedPods.parked
  rw [Option.getD_some, append_assoc]
  exact perm_middle

theorem parked_push_failed (uid : String) : (u.push_failed uid).parked.Perm (uid :: u.parked) := by
  unfold UncountedTerminatedPods.push_failed UncountedTerminatedPods.parked
  rw [Option.getD_some, ← append_assoc]
  exact perm_append_comm

/-- A pod that is parked one way does not show the other. -/
def Steady (o : TrackOptions) (uncounted : UncountedTerminatedPods) (pod : Pod) : Prop :=
  (verdict o.only_replace_failed_pods pod = some .succeeded →
    pod.uid ∉ uncounted.failed.getD []) ∧
  (verdict o.only_replace_failed_pods pod = some .failed → pod.name ∉ o.never_count_failed →
    pod.uid ∉ uncounted.succeeded.getD [])

theorem Steady.push_succeeded {pod : Pod} (h : Steady o uncounted pod) (hne : pod.uid ≠ uid) :
    Steady o (uncounted.push_succeeded uid) pod := by
  refine ⟨h.1, ?_⟩
  intro hv hname hmem
  have hmem : pod.uid ∈ uncounted.succeeded.getD [] ++ [uid] := hmem
  rcases mem_append.mp hmem with hold | hnew
  · exact h.2 hv hname hold
  · exact hne (mem_singleton.mp hnew)

theorem Steady.push_failed {pod : Pod} (h : Steady o uncounted pod) (hne : pod.uid ≠ uid) :
    Steady o (uncounted.push_failed uid) pod := by
  refine ⟨?_, h.2⟩
  intro hv hmem
  have hmem : pod.uid ∈ uncounted.failed.getD [] ++ [uid] := hmem
  rcases mem_append.mp hmem with hold | hnew
  · exact h.1 hv hold
  · exact hne (mem_singleton.mp hnew)

theorem claim_pod_spec (o : TrackOptions) (c : Claims) (pod : Pod) :
    ((claim_pod o c pod).1.uncounted = c.uncounted ∨
      (verdict o.only_replace_failed_pods pod = some .succeeded ∧
        pod.uid ∉ c.uncounted.succeeded.getD [] ∧
        (claim_pod o c pod).1.uncounted = c.uncounted.push_succeeded pod.uid) ∨
      (verdict o.only_replace_failed_pods pod = some .failed ∧ pod.name ∉ o.never_count_failed ∧
        pod.uid ∉ c.uncounted.failed.getD [] ∧
        (claim_pod o c pod).1.uncounted = c.uncounted.push_failed pod.uid)) ∧
    ∀ p ∈ (claim_pod o c pod).1.to_release, p ∈ c.to_release ∨ p = pod := by
  unfold claim_pod
  cases hverdict : verdict o.only_replace_failed_pods pod with
  | none => exact ⟨.inl rfl, fun p hp => .inl hp⟩
  | some v =>
    cases v with
    | succeeded =>
      dsimp only
      refine ⟨?_, ?_⟩
      · cases hfresh : uncounted_has c.uncounted.succeeded pod.uid with
        | true => exact .inl (by simp)
        | false =>
          have hnot : pod.uid ∉ c.uncounted.succeeded.getD [] := fun hmem =>
            absurd ((uncounted_has_iff.mpr hmem).symm.trans hfresh) (by decide)
          split_ifs
          all_goals first
            | exact .inl rfl
            | exact .inr (.inl ⟨rfl, hnot, rfl⟩)
      · intro p hp
        split_ifs at hp <;> simpa using hp
    | failed =>
      dsimp only
      by_cases hdelayed : (!o.job_terminal && decide (pod.uid ∈ o.delayed_deletion_uids)) = true
      · rw [if_pos hdelayed]
        refine ⟨.inl ?_, ?_⟩
        · split_ifs <;> rfl
        · intro p hp
          split_ifs at hp <;> exact .inl hp
      · rw [if_neg hdelayed]
        refine ⟨?_, ?_⟩
        · by_cases hcount : pod.name ∉ o.never_count_failed ∧
              (!uncounted_has c.uncounted.failed pod.uid) = true
          · have hnot : pod.uid ∉ c.uncounted.failed.getD [] := fun hmem =>
              absurd (uncounted_has_iff.mpr hmem) (by simpa using hcount.2)
            rw [if_pos hcount]
            refine .inr (.inr ⟨rfl, hcount.1, hnot, ?_⟩)
            split_ifs <;> rfl
          · rw [if_neg hcount]
            refine .inl ?_
            split_ifs <;> rfl
        · intro p hp
          split_ifs at hp <;> simpa using hp

theorem mem_to_release_claim {expected : Finset String} {list : List Pod}
    {c : Claims} {p : Pod} (h : p ∈ (claim o expected list c).to_release) :
    p ∈ c.to_release ∨ p ∈ list := by
  induction list generalizing c with
  | nil => exact .inl h
  | cons pod list ih =>
    have hpod : ∀ p ∈ (claim_pod o c pod).1.to_release, p ∈ c.to_release ∨ p ∈ pod :: list := by
      intro p hp
      rcases (claim_pod_spec o c pod).2 p hp with hold | rfl
      · exact .inl hold
      · exact Or.inr (.head _)
    unfold claim at h
    dsimp only at h
    split_ifs at h
    · exact (ih h).imp_right (mem_cons_of_mem _)
    · exact hpod p h
    · exact (ih h).elim (hpod p) fun hmem => .inr (.tail _ hmem)

/-- **Claiming keeps the balance.** The pods are those still to come: they are finished if
    they are claimed, and not counted yet. -/
theorem Balanced.claim (expected : Finset String) (list : List Pod) {c : Claims}
    (h : Balanced pods terminated succeeded failed tally c.uncounted)
    (hnodup : (list.map Pod.uid).Nodup)
    (hsteady : ∀ pod ∈ list, has_job_tracking_finalizer pod = true → Steady o c.uncounted pod)
    (hcounted : ∀ pod ∈ list, has_job_tracking_finalizer pod = true →
      pod.uid ∉ tally.succeeded ++ tally.failed)
    (hfinished : ∀ pod ∈ list, (verdict o.only_replace_failed_pods pod).isSome = true →
      pod.uid ∈ terminated) :
    Balanced pods terminated succeeded failed tally (Jobs.claim o expected list c).uncounted := by
  induction list generalizing c with
  | nil => exact h
  | cons pod list ih =>
    rw [map_cons, nodup_cons] at hnodup
    have hrest : ∀ p ∈ list, p.uid ≠ pod.uid := fun p hp heq =>
      hnodup.1 (heq ▸ mem_map_of_mem hp)
    have htail := fun (c' : Claims) (hb : Balanced pods terminated succeeded failed tally c'.uncounted)
        (hs : ∀ pod ∈ list, has_job_tracking_finalizer pod = true → Steady o c'.uncounted pod) =>
      ih hb hnodup.2 hs (fun p hp => hcounted p (.tail _ hp))
        (fun p hp => hfinished p (.tail _ hp))
    unfold Jobs.claim
    split_ifs with hskip
    · exact htail c h fun p hp => hsteady p (.tail _ hp)
    have hhas : has_job_tracking_finalizer pod = true := by
      cases hhas : has_job_tracking_finalizer pod with
      | true => rfl
      | false => exact absurd (by rw [hhas]; rfl) hskip
    have hsteady_pod := hsteady pod (.head _) hhas
    have hnot := hcounted pod (.head _) hhas
    -- the pod itself
    have hpod : Balanced pods terminated succeeded failed tally (claim_pod o c pod).1.uncounted ∧
        ∀ p ∈ list, has_job_tracking_finalizer p = true →
          Steady o (claim_pod o c pod).1.uncounted p := by
      rcases (claim_pod_spec o c pod).1 with heq | ⟨hv, hfresh, heq⟩ | ⟨hv, hname, hfresh, heq⟩
      · rw [heq]
        exact ⟨h, fun p hp => hsteady p (.tail _ hp)⟩
      · rw [heq]
        constructor
        · exact h.push hnot hfresh (hsteady_pod.1 hv) (hfinished pod (.head _) (by rw [hv]; rfl))
            (parked_push_succeeded _ _)
        · intro p hp hhas'
          exact (hsteady p (.tail _ hp) hhas').push_succeeded (hrest p hp)
      · rw [heq]
        constructor
        · exact h.push hnot (hsteady_pod.2 hv hname) hfresh
            (hfinished pod (.head _) (by rw [hv]; rfl)) (parked_push_failed _ _)
        · intro p hp hhas'
          exact (hsteady p (.tail _ hp) hhas').push_failed (hrest p hp)
    dsimp only
    split_ifs
    · exact hpod.1
    · exact htail _ hpod.1 hpod.2

end Jobs
