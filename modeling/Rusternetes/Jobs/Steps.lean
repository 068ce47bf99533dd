import Rusternetes.Jobs.Accounting

/-! # Steps of the Job Controller

    What a sync relies on at each stage: its copy of the Job is in balance as long as nobody
    else has written it, and the pods that it has released do not get the finalizer back.
    Each access to the storage keeps this, if two things that the code does not guard
    against do not happen: a get fails in the release of a pod that is still there with the
    finalizer, and a pod that is parked as failed shows as succeeded, or the other way.
-/

open Finset LTS List

namespace Jobs

variable {ρ : Type}

/-! ### Pods over time -/

/-- The pods of the storage. -/
structure Shelf (pods : List Pod) (used : Finset String) (revision : Nat) : Prop where
  names : (pods.map Pod.name).Nodup
  uids : (pods.map Pod.uid).Nodup
  used : ∀ p ∈ pods, p.uid ∈ used
  versions : ∀ p ∈ pods, p.version ≤ revision

/-- The pods change: one whose UID was used before is what became of the pod, which does
    not get the finalizer back. -/
structure Evolves (used : Finset String) (revision : Nat) (pods pods' : List Pod) : Prop where
  names : (pods'.map Pod.name).Nodup
  uids : (pods'.map Pod.uid).Nodup
  versions : ∀ p ∈ pods', p.version = revision + 1 ∨ p ∈ pods
  old : ∀ p ∈ pods', p.uid ∈ used → ∃ q ∈ pods, q.uid = p.uid ∧ q.name = p.name ∧
    (has_job_tracking_finalizer p = true → has_job_tracking_finalizer q = true)

def Follows (revision : Nat) (p p' : Pod) : Prop :=
  p'.name = p.name ∧ p'.uid = p.uid ∧ (p'.version = revision + 1 ∨ p' = p) ∧
    (has_job_tracking_finalizer p' = true → has_job_tracking_finalizer p = true)

theorem follows_remove_tracking_finalizer (revision : Nat) (p : Pod) :
    Follows revision p { (remove_tracking_finalizer p).2 with version := revision + 1 } := by
  refine ⟨?_, ?_, .inl rfl, fun hhas => nomatch hhas.symm.trans (has_remove_tracking_finalizer p)⟩
  all_goals
    unfold remove_tracking_finalizer
    cases p.finalizers <;> rfl

section pods

variable {pods pods' : List Pod} {used : Finset String} {revision : Nat}

theorem Evolves.settled (h : Evolves used revision pods pods') {uid : String} (huid : uid ∈ used)
    (hsettled : settled pods uid) : settled pods' uid := by
  intro p hp heq
  obtain ⟨q, hq, huid', -, hhas⟩ := h.old p hp (heq ▸ huid)
  cases hp' : has_job_tracking_finalizer p with
  | false => rfl
  | true => nomatch (hhas hp').symm.trans (hsettled q hq (huid'.trans heq))

variable (h : Shelf pods used revision)
include h

theorem Shelf.eq_of_name {p q : Pod} (hp : p ∈ pods) (hq : q ∈ pods) (hname : p.name = q.name) :
    p = q :=
  inj_on_of_nodup_map h.names hp hq hname

theorem Shelf.eq_of_uid {p q : Pod} (hp : p ∈ pods) (hq : q ∈ pods) (huid : p.uid = q.uid) :
    p = q :=
  inj_on_of_nodup_map h.uids hp hq huid

theorem Shelf.later : Shelf pods used (revision + 1) :=
  { h with versions := fun p hp => Nat.le_succ_of_le (h.versions p hp) }

theorem Shelf.change {name : String} {f : Pod → Pod}
    (hname : ∀ p ∈ pods, p.name = name → Follows revision p (f p)) :
    Evolves used revision pods (change_pods pods name f) ∧
      ∀ p ∈ change_pods pods name f, p.uid ∈ used := by
  have hpod : ∀ p ∈ pods, ∀ p', (if p.name = name then f p else p) = p' →
      Follows revision p p' := by
    rintro p hp _ rfl
    split_ifs with hp'
    · exact hname p hp hp'
    · exact ⟨rfl, rfl, .inr rfl, id⟩
  have hmap : ∀ g : Pod → String, (∀ p ∈ pods, g (if p.name = name then f p else p) = g p) →
      (change_pods pods name f).map g = pods.map g := by
    intro g hg
    rw [change_pods, List.map_map]
    exact map_congr_left hg
  have hnames := hmap Pod.name fun p hp => (hpod p hp _ rfl).1
  have huids := hmap Pod.uid fun p hp => (hpod p hp _ rfl).2.1
  refine ⟨⟨hnames ▸ h.names, huids ▸ h.uids, ?_, ?_⟩, ?_⟩
  · intro p' hp'
    obtain ⟨p, hp, heq⟩ := mem_map.mp hp'
    rcases (hpod p hp p' heq).2.2.1 with hnew | rfl
    · exact .inl hnew
    · exact .inr hp
  · intro p' hp' _
    obtain ⟨p, hp, heq⟩ := mem_map.mp hp'
    obtain ⟨hn, hu, -, hhas⟩ := hpod p hp p' heq
    exact ⟨p, hp, hu.symm, hn.symm, hhas⟩
  · intro p' hp'
    obtain ⟨p, hp, heq⟩ := mem_map.mp hp'
    rw [(hpod p hp p' heq).2.1]
    exact h.used p hp

theorem Shelf.delete (name : String) :
    Evolves used revision pods (pods.filter fun p => p.name ≠ name) ∧
      ∀ p ∈ pods.filter fun p => p.name ≠ name, p.uid ∈ used := by
  have hold : ∀ p ∈ pods.filter fun p => p.name ≠ name, p ∈ pods :=
    fun p hp => (mem_filter.mp hp).1
  exact ⟨⟨h.names.sublist (filter_sublist.map _), h.uids.sublist (filter_sublist.map _),
    fun p hp => .inr (hold p hp), fun p hp _ => ⟨p, hold p hp, rfl, rfl, id⟩⟩,
    fun p hp => h.used p (hold p hp)⟩

theorem Shelf.create {pod : Pod} (huid : pod.uid ∉ used)
    (hname : pod.name ∉ pods.map Pod.name) (hversion : pod.version = revision + 1) :
    Evolves used revision pods (pods ++ [pod]) := by
  have hnew : pod.uid ∉ pods.map Pod.uid := by
    intro hmem
    obtain ⟨p, hp, heq⟩ := mem_map.mp hmem
    exact huid (heq ▸ h.used p hp)
  refine ⟨?_, ?_, ?_, ?_⟩
  · rw [map_append]
    exact h.names.append (nodup_singleton _) (by simpa using hname)
  · rw [map_append]
    exact h.uids.append (nodup_singleton _) (by simpa using hnew)
  · exact forall_mem_append.mpr ⟨fun _ => .inr, forall_mem_singleton.mpr (.inl hversion)⟩
  · exact forall_mem_append.mpr ⟨fun p hp _ => ⟨p, hp, rfl, rfl, id⟩,
      forall_mem_singleton.mpr fun hused => absurd hused huid⟩

end pods

/-! ### The invariant -/

def Good (s : Store ρ) (job : Job ρ) : Prop :=
  Balanced s.pods s.terminated job.succeeded job.failed job.tally job.parked

/-- A copy of the Job: as long as nobody else has written, it is in balance, and its
    counters are not behind. -/
structure Copy (s : Store ρ) (job : Job ρ) : Prop where
  version_le : job.version ≤ s.job.version
  current : job.version = s.job.version →
    Good s job ∧ s.job.succeeded ≤ job.succeeded ∧ s.job.failed ≤ job.failed

def Named (s : Store ρ) (uid name : String) : Prop :=
  uid ∈ s.used ∧ ∀ p ∈ s.pods, p.uid = uid → p.name = name

def Gone (s : Store ρ) (uid : String) : Prop := uid ∈ s.used ∧ settled s.pods uid

def Releases (s : Store ρ) (pods : List Pod) (released : Finset String) : Prop :=
  (∀ pod ∈ pods, Named s pod.uid pod.name) ∧ ∀ uid ∈ released, Gone s uid

/-- What a sync relies on. -/
def Ready (s : Store ρ) : Stage ρ → Prop
  | .idle => True
  | .listing job => Copy s job
  | .checking job to_release => Copy s job ∧ Releases s (to_release.getD []) ∅
  | .writing job to_release => Copy s job ∧ Releases s (to_release.getD []) ∅
  | .releasing job pods released => Copy s job ∧ Releases s pods released
  | .removing job fresh uid pods released => Copy s job ∧ Releases s pods released ∧
      Named s uid fresh.name ∧ fresh.version ≤ s.revision ∧
      ∀ p ∈ s.pods, p.version = fresh.version → p.name = fresh.name → p = fresh

/-- The UID that is being released. -/
def Stage.pending : Stage ρ → Option String
  | .removing _ _ uid _ _ => some uid
  | _ => none

structure Sound (only_replace_failed_pods : Bool) (s : State ρ) : Prop where
  shelf : Shelf s.pods s.used s.revision
  version_le : s.job.version ≤ s.revision
  finished : ∀ p ∈ s.pods, (verdict only_replace_failed_pods p).isSome = true →
    p.uid ∈ s.terminated
  used : s.terminated ⊆ s.used
  good : Good s.toStore s.job
  expected : ∀ uid ∈ s.expected, s.stage.pending ≠ some uid → Gone s.toStore uid
  ready : Ready s.toStore s.stage

/-- What the code does not guard against does not happen. -/
def Careful (only_replace_failed_pods : Bool) (s : State ρ) : Label ρ → Prop
  | .get true => ∀ job pod pods released, s.stage = .releasing job (pod :: pods) released →
      settled s.pods pod.uid
  | .list pods never_count_failed _ => ∀ job, s.stage = .listing job → ∀ pod ∈ pods,
      has_job_tracking_finalizer pod = true →
        Steady { never_count_failed := never_count_failed,
                 only_replace_failed_pods := only_replace_failed_pods } job.parked pod
  | _ => True

/-! ### The storage changes -/

section storage

variable {only_failed : Bool} {s : Store ρ} {pods' : List Pod} {used' : Finset String}

theorem Good.put {job : Job ρ} (h : Good s job) (hused : s.terminated ⊆ s.used)
    (hev : Evolves s.used s.revision s.pods pods') :
    Good { s.put only_failed pods' with used := used' } job := by
  refine ⟨h.succeeded_eq, h.failed_eq, h.nodup, ?_, ?_⟩
  · intro uid huid
    exact mem_union_left _ (h.terminated uid huid)
  · intro uid huid
    have hterminated := h.terminated uid (mem_append_left _ huid)
    exact hev.settled (hused hterminated) (h.settled uid huid)

theorem Named.put {uid name : String} (h : Named s uid name) (hsub : s.used ⊆ used')
    (hev : Evolves s.used s.revision s.pods pods') :
    Named { s.put only_failed pods' with used := used' } uid name := by
  refine ⟨hsub h.1, ?_⟩
  intro p hp heq
  obtain ⟨q, hq, huid, hname, -⟩ := hev.old p hp (heq ▸ h.1)
  exact hname.symm.trans (h.2 q hq (huid.trans heq))

theorem Gone.put {uid : String} (h : Gone s uid) (hsub : s.used ⊆ used')
    (hev : Evolves s.used s.revision s.pods pods') :
    Gone { s.put only_failed pods' with used := used' } uid :=
  ⟨hsub h.1, hev.settled h.1 h.2⟩

/-- What a sync relies on is kept, if copies, names and releases are, and pods only change
    under new revisions. -/
theorem Ready.map {t : Store ρ} (hcopy : ∀ job, Copy s job → Copy t job)
    (hnamed : ∀ uid name, Named s uid name → Named t uid name) (hgone : ∀ uid, Gone s uid → Gone t uid)
    (hrevision : t.revision = s.revision + 1)
    (hversions : ∀ p ∈ t.pods, p.version = s.revision + 1 ∨ p ∈ s.pods) {stage : Stage ρ}
    (h : Ready s stage) : Ready t stage := by
  have hreleases : ∀ pods released, Releases s pods released → Releases t pods released :=
    fun _ _ h => ⟨fun pod hpod => hnamed _ _ (h.1 pod hpod), fun uid huid => hgone _ (h.2 uid huid)⟩
  cases stage with
  | idle => exact trivial
  | listing job => exact hcopy job h
  | checking job to_release | writing job to_release | releasing job pods released =>
    exact ⟨hcopy job h.1, hreleases _ _ h.2⟩
  | removing job fresh uid pods released =>
    obtain ⟨hjob, hpods, huid, hversion, hfresh⟩ := h
    refine ⟨hcopy job hjob, hreleases _ _ hpods, hnamed _ _ huid, by omega, ?_⟩
    intro p hp heq hname
    rcases hversions p hp with hnew | hold
    · omega
    · exact hfresh p hold heq hname

/-- **The pods change.** -/
theorem Sound.put {s : State ρ} (h : Sound only_failed s) (hsub : s.used ⊆ used')
    (hused : ∀ p ∈ pods', p.uid ∈ used') (hev : Evolves s.used s.revision s.pods pods') :
    Sound only_failed
      { s with toStore := { s.put only_failed pods' with used := used' } } := by
  constructor
  · refine ⟨hev.names, hev.uids, hused, ?_⟩
    intro p hp
    show p.version ≤ s.revision + 1
    rcases hev.versions p hp with heq | hold
    · omega
    · have hle := h.shelf.versions p hold
      omega
  · show s.job.version ≤ s.revision + 1
    have hle := h.version_le
    omega
  · intro p hp hverdict
    refine mem_union_right _ (mem_toFinset.mpr ?_)
    exact mem_map_of_mem (mem_filter.mpr ⟨hp, hverdict⟩)
  · intro uid huid
    rcases mem_union.mp huid with hold | hnew
    · exact hsub (h.used hold)
    · obtain ⟨p, hp, rfl⟩ := mem_map.mp (mem_toFinset.mp hnew)
      exact hused p (mem_filter.mp hp).1
  · exact h.good.put h.used hev
  · intro uid huid hpending
    exact (h.expected uid huid hpending).put hsub hev
  · refine h.ready.map ?_ (fun _ _ h => h.put hsub hev) (fun _ h => h.put hsub hev) rfl hev.versions
    intro job hjob
    refine ⟨hjob.version_le, ?_⟩
    intro heq
    obtain ⟨hgood, hle⟩ := hjob.current heq
    exact ⟨hgood.put h.used hev, hle⟩

theorem Sound.put_old {s : State ρ} (h : Sound only_failed s)
    (hev : Evolves s.used s.revision s.pods pods' ∧ ∀ p ∈ pods', p.uid ∈ s.used) :
    Sound only_failed { s with toStore := s.put only_failed pods' } :=
  h.put subset_rfl hev.2 hev.1

/-- The Job is written: the copies that were current are not any more. -/
theorem Ready.store {job : Job ρ} (hjob : job.version = s.revision + 1)
    (hversion : s.job.version ≤ s.revision) {stage : Stage ρ} (h : Ready s stage) :
    Ready { s with job := job, revision := s.revision + 1 } stage := by
  refine Ready.map (s := s) (t := { s with job := job, revision := s.revision + 1 }) ?_
    (fun _ _ h => h) (fun _ h => h) rfl (fun _ hp => .inr hp) h
  intro copy hcopy
  have hle := hcopy.version_le
  refine ⟨?_, ?_⟩
  · show copy.version ≤ job.version
    omega
  · intro heq
    have heq : copy.version = job.version := heq
    omega

end storage

/-! ### The controller's steps -/

section steps

variable {only_failed : Bool} {s : State ρ} {pods : List Pod}
  {released : Finset String} {uid : String}

theorem parked_uncounted_status (u : UncountedTerminatedPods) :
    ((uncounted_status u).getD {}).parked = u.parked := by
  unfold uncounted_status
  split_ifs with hempty
  · rw [List.isEmpty_iff] at hempty
    rw [hempty]
    rfl
  · rfl

theorem Balanced.congr {terminated : Finset String} {succeeded failed : Int}
    {tally : Tally} {u u' : UncountedTerminatedPods}
    (h : Balanced pods terminated succeeded failed tally u) (heq : u'.parked = u.parked) :
    Balanced pods terminated succeeded failed tally u' := by
  have haccounted : accounted tally u' = accounted tally u := by rw [accounted, accounted, heq]
  exact ⟨h.succeeded_eq, h.failed_eq, haccounted ▸ h.nodup, haccounted ▸ h.terminated, h.settled⟩

variable {o : TrackOptions} {pod : Pod}

theorem Steady.clean {uncounted : UncountedTerminatedPods} (h : Steady o uncounted pod)
    (sc fc : Option Int) (uids : Finset String) :
    Steady o (clean_uncounted_pods_without_finalizers sc fc uncounted uids).uncounted pod := by
  have hsub : ∀ (count : Option Int) (list : Option (List String)) (uid : String),
      uid ∈ (clean_list count list uids).2.2.getD [] → uid ∈ list.getD [] := by
    intro count list uid hmem
    rw [(clean_list_spec count list uids).1] at hmem
    exact (mem_filter.mp hmem).1
  exact ⟨fun hv hmem => h.1 hv (hsub _ _ _ hmem),
    fun hv hname hmem => h.2 hv hname (hsub _ _ _ hmem)⟩

variable (h : Sound only_failed s)
include h

theorem Sound.at_stage {stage : Stage ρ} (hstage : s.stage = stage) :
    Ready s.toStore stage := hstage ▸ h.ready

theorem Sound.go {stage : Stage ρ} {expected : Finset String}
    (hexpected : ∀ uid ∈ expected, stage.pending ≠ some uid → Gone s.toStore uid)
    (hready : Ready s.toStore stage) :
    Sound only_failed { s with stage := stage, expected := expected } :=
  { h with expected := hexpected, ready := hready }

theorem Sound.gone_of_expected (hpending : s.stage.pending = none) (huid : uid ∈ s.expected) :
    Gone s.toStore uid :=
  h.expected uid huid (by rw [hpending]; simp)

theorem Sound.go_on {old stage : Stage ρ} (hstage : s.stage = old)
    (hpending : old.pending = none) (hready : Ready s.toStore stage) :
    Sound only_failed { s with stage := stage } :=
  h.go (fun _ huid _ => h.gone_of_expected (hstage ▸ hpending) huid) hready

/-! #### Lists -/

theorem Sound.settled_of_list (hpending : s.stage.pending = none) (hperm : pods.Perm s.pods)
    (huid : uid ∉ uids_with_finalizer (still_expected s.expected pods) pods) :
    settled s.pods uid := by
  intro p hp heq
  cases hhas : has_job_tracking_finalizer p with
  | false => rfl
  | true =>
    by_cases hexpected : uid ∈ still_expected s.expected pods
    · -- its removal is expected, and has taken place
      have hgone := h.gone_of_expected hpending (mem_filter.mp hexpected).1
      exact hhas.symm.trans (hgone.2 p hp heq)
    · refine absurd (mem_toFinset.mpr (mem_map.mpr ⟨p, ?_, heq⟩)) huid
      rw [mem_filter, hhas, heq, Bool.true_and]
      exact ⟨hperm.mem_iff.mpr hp, decide_eq_true hexpected⟩

variable {job : Job ρ}

/-- **The pods are tracked.** -/
theorem Good.track (hpending : s.stage.pending = none)
    (hgood : Good s.toStore job) (hperm : pods.Perm s.pods)
    (ho : o.only_replace_failed_pods = only_failed)
    (hsteady : ∀ pod ∈ pods, has_job_tracking_finalizer pod = true → Steady o job.parked pod)
    (rest : ρ) :
    let r := track_terminated_pods s.expected job.status pods o
    Good s.toStore { job with
      status := some (status_of r.1 rest)
      tally := job.tally.count (uncounted_of job.status) (uids_with_finalizer r.2 pods) } := by
  have hclean := Balanced.clean hgood fun uid _ huid => h.settled_of_list hpending hperm huid
  refine Balanced.congr (Balanced.claim (o := o) (still_expected s.expected pods) pods
    (c := { uncounted := _, needs_flush := _ }) hclean
    ((hperm.map Pod.uid).nodup_iff.mpr h.shelf.uids)
    (fun pod hpod hhas => (hsteady pod hpod hhas).clean _ _ _) ?_ ?_) (parked_uncounted_status _)
  · -- one that was counted has no finalizer
    intro pod hpod hhas hmem
    have hsettled := hclean.settled pod.uid hmem pod (hperm.mem_iff.mp hpod) rfl
    nomatch hhas.symm.trans hsettled
  · intro pod hpod hverdict
    exact h.finished pod (hperm.mem_iff.mp hpod) (ho ▸ hverdict)

theorem Sound.list (hstage : s.stage = .listing job)
    (hperm : pods.Perm s.pods) (ho : o.only_replace_failed_pods = only_failed)
    (hsteady : ∀ pod ∈ pods, has_job_tracking_finalizer pod = true → Steady o job.parked pod)
    (rest : ρ) :
    let r := track_terminated_pods s.expected job.status pods o
    Sound only_failed { s with
      expected := r.2
      stage := .checking { job with
        status := some (status_of r.1 rest)
        tally := job.tally.count (uncounted_of job.status) (uids_with_finalizer r.2 pods) }
          (some r.1.to_release) } := by
  have hpending : s.stage.pending = none := by rw [hstage]; rfl
  have hcopy : Copy s.toStore job := h.at_stage hstage
  refine h.go ?_ ⟨⟨hcopy.version_le, ?_⟩, ?_, ?_⟩
  · intro uid huid _
    exact h.gone_of_expected hpending (mem_filter.mp huid).1
  · intro heq
    obtain ⟨hgood, hsucceeded, hfailed⟩ := hcopy.current heq
    refine ⟨hgood.track h hpending hperm ho hsteady rest, ?_, ?_⟩
    · exact hsucceeded.trans (clean_list_mono _ _ _)
    · exact hfailed.trans (clean_list_mono _ _ _)
  · intro pod hpod
    have hmem : pod ∈ s.pods := by
      rcases mem_to_release_claim hpod with hnil | hmem
      · nomatch hnil
      · exact hperm.mem_iff.mp hmem
    refine ⟨h.shelf.used pod hmem, ?_⟩
    intro p hp huid
    rw [h.shelf.eq_of_uid hp hmem huid]
  · intro uid huid
    exact absurd huid (notMem_empty uid)

omit h

/-! #### Writes -/

section writes

variable [DecidableEq ρ] {job : Job ρ}

/-- The clamp does nothing to a copy that is current. -/
theorem write_status_eq {persisted : Job ρ} (hsucceeded : persisted.succeeded ≤ job.succeeded)
    (hfailed : persisted.failed ≤ job.failed) : (write_status persisted job).1 = job := by
  have hclamp : ∀ next, job.status = some next →
      clamp_counters_monotonic next persisted.status = next := by
    intro next hnext
    unfold Job.succeeded at hsucceeded
    unfold Job.failed at hfailed
    rw [hnext] at hsucceeded hfailed
    unfold clamp_counters_monotonic
    cases hpersisted : persisted.status with
    | none => rfl
    | some old =>
      rw [hpersisted] at hsucceeded hfailed
      have hs : ¬next.succeeded.getD 0 < old.succeeded.getD 0 := not_lt.mpr hsucceeded
      have hf : ¬next.failed.getD 0 < old.failed.getD 0 := not_lt.mpr hfailed
      dsimp only
      rw [if_neg hf, if_neg hs]
  unfold write_status
  cases hstatus : job.status with
  | none =>
    rw [Option.map_none, ← hstatus]
  | some next => rw [Option.map_some, hclamp next hstatus, ← hstatus]

theorem Copy.clamp (h : Copy s.toStore job) : Copy s.toStore (write_status s.job job).1 := by
  refine ⟨h.version_le, ?_⟩
  intro heq
  obtain ⟨hgood, hsucceeded, hfailed⟩ := h.current heq
  rw [write_status_eq hsucceeded hfailed]
  exact ⟨hgood, hsucceeded, hfailed⟩

omit [DecidableEq ρ] in
theorem Ready.written {to_release : Option (List Pod)} {t : Store ρ} (hcopy : Copy t job)
    (hreleases : Releases t (to_release.getD []) ∅) :
    Ready t (written job to_release) := by
  cases to_release with
  | none => exact trivial
  | some pods => exact ⟨hcopy, hreleases⟩

omit [DecidableEq ρ] in
/-- **The status is written**, by a copy that is current. -/
theorem Sound.write (h : Sound only_failed s) {old stage : Stage ρ} (hstage : s.stage = old)
    (hpending : old.pending = none) (hgood : Good s.toStore job)
    (hready : Ready { s.toStore with
      job := { job with version := s.revision + 1 }, revision := s.revision + 1 } stage) :
    Sound only_failed { s with
      toStore := { s.toStore with
        job := { job with version := s.revision + 1 }, revision := s.revision + 1 }
      stage := stage } :=
  { h with
    shelf := h.shelf.later
    version_le := le_rfl
    good := hgood
    expected := fun _ huid _ => h.gone_of_expected (hstage ▸ hpending) huid
    ready := hready }

end writes

/-! #### Releases -/

variable {t : Store ρ}

omit s in
theorem Releases.tail (h : Releases t (pod :: pods) released) : Releases t pods released :=
  ⟨fun p hp => h.1 p (.tail _ hp), h.2⟩

omit s in
theorem Releases.insert (h : Releases t pods released) (hgone : Gone t uid) :
    Releases t pods (insert uid released) := by
  refine ⟨h.1, ?_⟩
  intro u hu
  rcases mem_insert.mp hu with rfl | hold
  · exact hgone
  · exact h.2 u hold

omit s in
theorem Named.gone {uid name : String} (h : Named t uid name)
    (hname : ∀ p ∈ t.pods, p.name = name → has_job_tracking_finalizer p = false) : Gone t uid :=
  ⟨h.1, fun p hp huid => hname p hp (h.2 p hp huid)⟩

/-- **The folding** of what was released. -/
theorem Ready.folded (hcopy : Copy t job) (hreleased : ∀ uid ∈ released, Gone t uid) :
    Ready t (folded job released) := by
  unfold Jobs.folded
  split_ifs with hempty
  · exact trivial
  cases hstatus : job.status with
  | none => exact trivial
  | some status =>
    dsimp only
    cases huncounted : status.uncounted_terminated_pods with
    | none =>
      unfold fold_released
      rw [huncounted]
      exact trivial
    | some uncounted =>
      unfold fold_released
      rw [huncounted]
      split_ifs with hupdated
      swap
      · exact trivial
      refine ⟨⟨hcopy.version_le, ?_⟩, ?_, ?_⟩
      · intro heq
        obtain ⟨hgood, hsucceeded, hfailed⟩ := hcopy.current heq
        unfold Good Job.succeeded Job.failed Job.parked uncounted_of at hgood
        rw [hstatus] at hgood
        simp only [Option.bind_some, huncounted, Option.getD_some] at hgood
        have hsettled : ∀ uid ∈ uncounted.parked, uid ∉ still_held uncounted released →
            settled t.pods uid := by
          intro uid hparked hnot
          by_cases hmem : uid ∈ released
          · exact (hreleased uid hmem).2
          · refine absurd (mem_toFinset.mpr (mem_filter.mpr ⟨hparked, ?_⟩)) hnot
            exact decide_eq_true hmem
        refine ⟨(Balanced.clean hgood hsettled).congr (parked_uncounted_status _), ?_, ?_⟩
        · refine hsucceeded.trans ?_
          unfold Job.succeeded
          rw [hstatus]
          exact clean_list_mono _ _ _
        · refine hfailed.trans ?_
          unfold Job.failed
          rw [hstatus]
          exact clean_list_mono _ _ _
      · intro pod hpod
        nomatch hpod
      · intro uid huid
        exact absurd huid (notMem_empty uid)

/-- **A pod is got.** -/
theorem Sound.get (h : Sound only_failed s)
    (hstage : s.stage = .releasing job (pod :: pods) released) {found : Option Pod}
    (hnone : found = none → settled s.pods pod.uid)
    (hsome : ∀ fresh, found = some fresh → fresh ∈ s.pods ∧ fresh.name = pod.name) :
    (found = none → Sound only_failed { s with
      expected := s.expected.erase pod.uid
      stage := .releasing job pods (insert pod.uid released) }) ∧
    ∀ fresh, found = some fresh →
      ((remove_tracking_finalizer fresh).1 = true → Sound only_failed { s with
        expected := insert pod.uid s.expected
        stage := .removing job fresh pod.uid pods released }) ∧
      ((remove_tracking_finalizer fresh).1 = false → Sound only_failed { s with
        stage := .releasing job pods (insert pod.uid released) }) := by
  have hpending : s.stage.pending = none := by rw [hstage]; rfl
  obtain ⟨hcopy, hreleases⟩ := h.at_stage hstage
  have hnamed := hreleases.1 pod (.head _)
  constructor
  · intro hfound
    refine h.go ?_ ⟨hcopy, hreleases.tail.insert ⟨hnamed.1, hnone hfound⟩⟩
    intro uid huid _
    exact h.gone_of_expected hpending (mem_of_mem_erase huid)
  intro fresh hfound
  obtain ⟨hfresh, hname⟩ := hsome fresh hfound
  have hunique : ∀ p ∈ s.pods, p.name = fresh.name → p = fresh := fun p hp heq =>
    h.shelf.eq_of_name hp hfresh heq
  constructor
  · intro _
    refine h.go ?_ ⟨hcopy, hreleases.tail, hname ▸ hnamed, h.shelf.versions fresh hfresh, ?_⟩
    · intro uid huid hne
      rcases mem_insert.mp huid with rfl | hold
      · exact absurd rfl hne
      · exact h.gone_of_expected hpending hold
    · intro p hp _ heq
      exact hunique p hp heq
  · intro hremoved
    refine h.go_on hstage rfl ⟨hcopy, hreleases.tail.insert (hnamed.gone ?_)⟩
    intro p hp heq
    rw [hunique p hp (heq.trans hname.symm)]
    exact has_of_remove_tracking_finalizer hremoved

/-- **A pod is updated**, if it is the one that was got. -/
theorem Sound.update (h : Sound only_failed s) {fresh : Pod}
    (hstage : s.stage = .removing job fresh uid pods released) :
    let stored := s.put only_failed (update_pods s.pods fresh (s.revision + 1))
    (∀ store, store = stored ∨ store = s.toStore → Sound only_failed { s with
      toStore := store
      expected := s.expected.erase uid
      stage := .releasing job pods released }) ∧
    ((∃ p ∈ s.pods, p.name = fresh.name ∧ p.version = fresh.version) →
      Sound only_failed { s with
        toStore := stored, stage := .releasing job pods (insert uid released) }) := by
  obtain ⟨hcopy, hreleases, hnamed, hversion, hfresh⟩ := h.at_stage hstage
  -- the pod that is replaced is the one that was got
  have hchange : Evolves s.used s.revision s.pods (update_pods s.pods fresh (s.revision + 1)) ∧
      ∀ p ∈ update_pods s.pods fresh (s.revision + 1), p.uid ∈ s.used := by
    refine h.shelf.change ?_
    intro p hp hname
    split_ifs with heq
    · rw [hfresh p hp heq hname]
      exact follows_remove_tracking_finalizer _ fresh
    · exact ⟨rfl, rfl, .inr rfl, id⟩
  have hput := h.put_old hchange
  obtain ⟨hcopy', hreleases', hnamed', -, -⟩ := hput.at_stage hstage
  have hexpected : ∀ u ∈ s.expected, u ≠ uid → Gone s.toStore u := by
    intro u hu hne
    refine h.expected u hu ?_
    rw [hstage]
    intro heq
    exact hne (Option.some.inj heq).symm
  constructor
  · intro store hstore
    have hboth : Sound only_failed { s with toStore := store } ∧ Copy store job ∧
        Releases store pods released ∧ ∀ u ∈ s.expected, u ≠ uid → Gone store u := by
      rcases hstore with rfl | rfl
      · exact ⟨hput, hcopy', hreleases', fun u hu hne => (hexpected u hu hne).put subset_rfl hchange.1⟩
      · exact ⟨h, hcopy, hreleases, hexpected⟩
    obtain ⟨hsound, hcopy, hreleases, hgone⟩ := hboth
    refine hsound.go ?_ ⟨hcopy, hreleases⟩
    intro u hu _
    obtain ⟨hne, hmem⟩ := mem_erase.mp hu
    exact hgone u hmem hne
  · intro ⟨q, hq, hname, hcurrent⟩
    have hgone := hnamed'.gone (by
      intro p' hp' heq
      obtain ⟨p, hp, rfl⟩ := mem_map.mp hp'
      by_cases hname' : p.name = fresh.name
      · -- it is the one that was got
        have hpq := h.shelf.eq_of_name hp hq (hname'.trans hname.symm)
        rw [if_pos hname', hpq]
        dsimp only
        rw [if_pos hcurrent]
        exact has_remove_tracking_finalizer fresh
      · rw [if_neg hname'] at heq
        exact absurd heq hname')
    refine hput.go ?_ ⟨hcopy', hreleases'.insert hgone⟩
    intro u hu _
    by_cases hne : u = uid
    · rw [hne]
      exact hgone
    · exact (hexpected u hu hne).put subset_rfl hchange.1

end steps

end Jobs
