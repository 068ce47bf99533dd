import Mathlib
import Rusternetes.Framework.LTS

/-! # Tracking the Pods of a Job

    A pod of a Job carries a finalizer until it is accounted for. A sync of the Job
    controller claims the pods that have finished: it parks their UIDs in the status, writes
    the status, removes the finalizers, and folds the UIDs whose finalizer is gone into the
    counters.

    * `track_terminated_pods` is what a sync computes from the pods it has listed.
    * `next` is the controller over the storage. A step is one access to the storage; any
      of them may fail, and a write that fails may have been applied. Pods change and go
      away in between, and the controller may be restarted.
    * What the counters stand for is kept in a `Tally`, which the code does not have.
-/

open LTS

namespace Jobs

/-! ### Pods -/

inductive Phase where
  | Pending
  | Running
  | Succeeded
  | Failed
  | Unknown
  | Active
  | Terminating
  deriving DecidableEq

/-- A pod, as far as the accounting looks at it. -/
structure Pod where
  name : String
  uid : String
  /-- The resource version. -/
  version : Nat
  phase : Option Phase := none
  /-- Whether it has a deletion timestamp. -/
  deleting : Bool := false
  finalizers : Option (List String) := none
  /-- What `get_pod_index` finds. -/
  index : Option Int := none
  deriving DecidableEq

def JOB_TRACKING_FINALIZER : String := "batch.kubernetes.io/job-tracking"

def has_job_tracking_finalizer (pod : Pod) : Bool :=
  pod.finalizers.any fun f => f.any fun x => x == JOB_TRACKING_FINALIZER

def remove_tracking_finalizer (pod : Pod) : Bool × Pod :=
  match pod.finalizers with
  | none => (false, pod)
  | some finalizers =>
    let kept := finalizers.filter fun f => f != JOB_TRACKING_FINALIZER
    (kept.length != finalizers.length,
      { pod with finalizers := if kept.isEmpty then none else some kept })

def is_pod_failed (pod : Pod) (only_replace_failed_pods : Bool) : Bool :=
  if pod.phase = some .Failed then true
  else if only_replace_failed_pods then false
  else pod.deleting && pod.phase ≠ some .Succeeded

/-- How a pod has finished. -/
inductive Verdict where
  | succeeded
  | failed
  deriving DecidableEq

def verdict (only_replace_failed_pods : Bool) (pod : Pod) : Option Verdict :=
  if pod.phase = some .Succeeded then some .succeeded
  else if is_pod_failed pod only_replace_failed_pods then some .failed
  else none

/-! ### Uncounted pods -/

/-- The UIDs of pods that have finished and are not in the counters. -/
structure UncountedTerminatedPods where
  succeeded : Option (List String) := none
  failed : Option (List String) := none
  deriving DecidableEq

def uncounted_has (list : Option (List String)) (uid : String) : Bool :=
  list.any fun v => v.any fun u => u == uid

namespace UncountedTerminatedPods

variable (uncounted : UncountedTerminatedPods)

def push_succeeded (uid : String) : UncountedTerminatedPods :=
  { uncounted with succeeded := some (uncounted.succeeded.getD [] ++ [uid]) }

def push_failed (uid : String) : UncountedTerminatedPods :=
  { uncounted with failed := some (uncounted.failed.getD [] ++ [uid]) }

/-- All the UIDs. -/
def parked : List String := uncounted.succeeded.getD [] ++ uncounted.failed.getD []

end UncountedTerminatedPods

/-- One list of `clean_uncounted_pods_without_finalizers`: whether it changed, its counter
    and what is left of it. -/
def clean_list (count : Option Int) (list : Option (List String))
    (uids_with_finalizer : Finset String) : Bool × Option Int × Option (List String) :=
  match list with
  | none => (false, count, none)
  | some list =>
    let kept := list.filter fun uid => uid ∈ uids_with_finalizer
    let folded := list.length - kept.length
    if folded > 0 then (true, some (count.getD 0 + folded), some kept)
    else (false, count, some kept)

structure Cleaned where
  updated : Bool
  succeeded : Option Int
  failed : Option Int
  uncounted : UncountedTerminatedPods

/-- The UIDs whose finalizer is gone go into the counters. -/
def clean_uncounted_pods_without_finalizers (succeeded failed : Option Int)
    (uncounted : UncountedTerminatedPods) (uids_with_finalizer : Finset String) : Cleaned :=
  let s := clean_list succeeded uncounted.succeeded uids_with_finalizer
  let f := clean_list failed uncounted.failed uids_with_finalizer
  { updated := s.1 || f.1
    succeeded := s.2.1
    failed := f.2.1
    uncounted := { succeeded := s.2.2, failed := f.2.2 } }

/-! ### Claims -/

/-- `JobStatus`, with what does not bear on the accounting as a whole. -/
structure JobStatus (ρ : Type) where
  succeeded : Option Int := none
  failed : Option Int := none
  uncounted_terminated_pods : Option UncountedTerminatedPods := none
  rest : ρ
  deriving DecidableEq

/-- What a sync knows when it tracks the pods. -/
structure TrackOptions where
  /-- Names of failed pods that are not counted. -/
  never_count_failed : Finset String := ∅
  is_indexed : Bool := false
  only_replace_failed_pods : Bool
  delayed_deletion_uids : Finset String := ∅
  job_terminal : Bool := false
  completions : Int := 1

def MAX_UNCOUNTED_PODS : Nat := 500

/-- The loop's variables. -/
structure Claims where
  uncounted : UncountedTerminatedPods
  to_release : List Pod := []
  new_succeeded : List Pod := []
  new_failed : List Pod := []
  needs_flush : Bool

/-- A pod that still has the finalizer; and whether the loop goes on at once. -/
def claim_pod (o : TrackOptions) (c : Claims) (pod : Pod) : Claims × Bool :=
  let valid_index := !o.is_indexed || pod.index.any fun i => 0 ≤ i && i < o.completions
  match verdict o.only_replace_failed_pods pod with
  | some .succeeded =>
    let fresh := !uncounted_has c.uncounted.succeeded pod.uid
    let c := if valid_index && fresh then
        { c with new_succeeded := c.new_succeeded ++ [pod], needs_flush := true } else c
    let c := if !o.is_indexed && fresh then
        { c with uncounted := c.uncounted.push_succeeded pod.uid } else c
    ({ c with to_release := c.to_release ++ [pod] }, false)
  | some .failed =>
    let fresh := !uncounted_has c.uncounted.failed pod.uid
    let c := if valid_index && fresh then { c with new_failed := c.new_failed ++ [pod] } else c
    if !o.job_terminal && pod.uid ∈ o.delayed_deletion_uids then (c, true)
    else
      -- a failure that is not counted is released as well
      let c := if pod.name ∉ o.never_count_failed ∧ fresh then
          { c with uncounted := c.uncounted.push_failed pod.uid, needs_flush := true } else c
      ({ c with to_release := c.to_release ++ [pod] }, false)
  | none => (c, false)

def claim (o : TrackOptions) (expected : Finset String) : List Pod → Claims → Claims
  | [], c => c
  | pod :: pods, c =>
    if !has_job_tracking_finalizer pod || pod.uid ∈ expected then claim o expected pods c
    else
      let r := claim_pod o c pod
      if !r.2 && MAX_UNCOUNTED_PODS ≤ r.1.uncounted.parked.length then r.1
      else claim o expected pods r.1

structure TrackedPods where
  status_succeeded : Option Int
  status_failed : Option Int
  /-- Counted and parked. -/
  succeeded : Int
  failed : Int
  uncounted : UncountedTerminatedPods
  to_release : List Pod
  /-- The pods for the backoff record. -/
  new_succeeded : List Pod
  new_failed : List Pod
  needs_flush : Bool

/-- The removals that the pods do not show yet. -/
def still_expected (expected : Finset String) (job_pods : List Pod) : Finset String :=
  expected.filter fun uid => uid ∈ (job_pods.filter has_job_tracking_finalizer).map Pod.uid

/-- The pods that have the finalizer, without those whose removal is expected. -/
def uids_with_finalizer (expected : Finset String) (job_pods : List Pod) : Finset String :=
  ((job_pods.filter fun p => has_job_tracking_finalizer p && p.uid ∉ expected).map Pod.uid).toFinset

section status

variable {ρ : Type}

def uncounted_of (persisted : Option (JobStatus ρ)) : UncountedTerminatedPods :=
  (persisted.bind fun s => s.uncounted_terminated_pods).getD {}

def track_terminated_pods (expected : Finset String) (persisted : Option (JobStatus ρ))
    (job_pods : List Pod) (o : TrackOptions) : TrackedPods × Finset String :=
  let expected := still_expected expected job_pods
  let cleaned := clean_uncounted_pods_without_finalizers (persisted.bind fun s => s.succeeded)
    (persisted.bind fun s => s.failed) (uncounted_of persisted)
    (uids_with_finalizer expected job_pods)
  let c := claim o expected job_pods
    { uncounted := cleaned.uncounted, needs_flush := cleaned.updated }
  ({ status_succeeded := some (cleaned.succeeded.getD 0)
     status_failed := some (cleaned.failed.getD 0)
     succeeded := cleaned.succeeded.getD 0 + (c.uncounted.succeeded.getD []).length
     failed := cleaned.failed.getD 0 + (c.uncounted.failed.getD []).length
     uncounted := c.uncounted
     to_release := c.to_release
     new_succeeded := c.new_succeeded
     new_failed := c.new_failed
     needs_flush := c.needs_flush }, expected)

/-- The field is dropped once both lists are empty. -/
def uncounted_status (uncounted : UncountedTerminatedPods) : Option UncountedTerminatedPods :=
  if uncounted.parked.isEmpty then none else some uncounted

def status_of (tracked : TrackedPods) (rest : ρ) : JobStatus ρ where
  succeeded := tracked.status_succeeded
  failed := tracked.status_failed
  uncounted_terminated_pods := uncounted_status tracked.uncounted
  rest := rest

def clamp_counters_monotonic (next : JobStatus ρ) (persisted : Option (JobStatus ρ)) :
    JobStatus ρ :=
  match persisted with
  | none => next
  | some old =>
    let next := if next.failed.getD 0 < old.failed.getD 0 then { next with failed := old.failed }
      else next
    if next.succeeded.getD 0 < old.succeeded.getD 0 then { next with succeeded := old.succeeded }
    else next

/-- What `flush_status_and_release` has parked and not released. -/
def still_held (uncounted : UncountedTerminatedPods) (released : Finset String) : Finset String :=
  (uncounted.parked.filter fun uid => uid ∉ released).toFinset

/-- `flush_status_and_release` after the release: the status, and whether it is written. -/
def fold_released (status : JobStatus ρ) (released : Finset String) : JobStatus ρ × Bool :=
  match status.uncounted_terminated_pods with
  | none => (status, false)
  | some uncounted =>
    let cleaned := clean_uncounted_pods_without_finalizers status.succeeded status.failed uncounted
      (still_held uncounted released)
    ({ status with
       succeeded := cleaned.succeeded
       failed := cleaned.failed
       uncounted_terminated_pods := uncounted_status cleaned.uncounted }, cleaned.updated)

end status

/-! ### The system -/

/-- The pods that the counters stand for. -/
structure Tally where
  succeeded : List String := []
  failed : List String := []

/-- Those that are parked and have no finalizer come to be counted. -/
def Tally.count (tally : Tally) (uncounted : UncountedTerminatedPods)
    (uids_with_finalizer : Finset String) : Tally where
  succeeded := tally.succeeded ++
    (uncounted.succeeded.getD []).filter fun uid => uid ∉ uids_with_finalizer
  failed := tally.failed ++ (uncounted.failed.getD []).filter fun uid => uid ∉ uids_with_finalizer

structure Job (ρ : Type) where
  version : Nat
  status : Option (JobStatus ρ)
  tally : Tally

/-- Where the controller stands in a sync. -/
inductive Stage (ρ : Type) where
  | idle
  /-- Before the pods are listed. -/
  | listing (job : Job ρ)
  /-- Before the get of `write_status`; with the pods to release if it is the first one. -/
  | checking (job : Job ρ) (to_release : Option (List Pod))
  /-- Before `update_status_cas`. -/
  | writing (job : Job ρ) (to_release : Option (List Pod))
  /-- Before the get of the next pod. -/
  | releasing (job : Job ρ) (pods : List Pod) (released : Finset String)
  /-- Before the update of a pod that was got, for the UID to release. -/
  | removing (job : Job ρ) (fresh : Pod) (uid : String) (pods : List Pod)
      (released : Finset String)

structure Store (ρ : Type) where
  pods : List Pod
  job : Job ρ
  /-- The versions so far are not above. -/
  revision : Nat
  /-- The UIDs given out so far. -/
  used : Finset String
  /-- The pods that were finished at some time. -/
  terminated : Finset String

/-- The storage and the controller. -/
structure State (ρ : Type) extends Store ρ where
  stage : Stage ρ
  /-- `FinalizerExpectations` of the Job. -/
  expected : Finset String

/-- What becomes of a write. -/
inductive Outcome where
  | ok
  | failed (applied : Bool)
  deriving DecidableEq

inductive Label (ρ : Type) where
  | create (pod : Pod)
  | change (name : String) (phase : Option Phase) (deleting : Bool)
  | delete (name : String)
  /-- Someone else removes the finalizer. -/
  | strip (name : String)
  /-- Someone else writes the Job, not its status. -/
  | touch
  | sync
  /-- The pods are listed, in some order, and the rest of the status is computed. -/
  | list (pods : List Pod) (never_count_failed : Finset String) (rest : ρ)
  | check (fails : Bool)
  | write (outcome : Outcome)
  | get (fails : Bool)
  | update (outcome : Outcome)
  | fold
  /-- A pod event shows that a finalizer is gone. -/
  | observe (uid : String)
  /-- The sync ends with an error. -/
  | give_up
  | restart

section system

variable {ρ : Type} [DecidableEq ρ] (only_replace_failed_pods : Bool)

def finished (pods : List Pod) : Finset String :=
  ((pods.filter fun p => (verdict only_replace_failed_pods p).isSome).map Pod.uid).toFinset

def Store.put (s : Store ρ) (pods : List Pod) : Store ρ :=
  { s with
    pods := pods
    revision := s.revision + 1
    terminated := s.terminated ∪ finished only_replace_failed_pods pods }

def change_pods (pods : List Pod) (name : String) (f : Pod → Pod) : List Pod :=
  pods.map fun p => if p.name = name then f p else p

def update_pods (pods : List Pod) (fresh : Pod) (version : Nat) : List Pod :=
  change_pods pods fresh.name fun p =>
    if p.version = fresh.version then
      { (remove_tracking_finalizer fresh).2 with version := version } else p

/-- `write_status` after its get: the Job as clamped, and whether it is written. -/
def write_status (persisted job : Job ρ) : Job ρ × Bool :=
  let job := { job with
    status := job.status.map fun next => clamp_counters_monotonic next persisted.status }
  (job, decide (persisted.version ≠ job.version ∨ persisted.status ≠ job.status))

/-- What follows a write of the status. -/
def written (job : Job ρ) : Option (List Pod) → Stage ρ
  | some pods => .releasing job pods ∅
  | none => .idle

def folded (job : Job ρ) (released : Finset String) : Stage ρ :=
  if released = ∅ then .idle
  else
    match job.status with
    | none => .idle
    | some status =>
      let r := fold_released status released
      let tally := match status.uncounted_terminated_pods with
        | none => job.tally
        | some uncounted => job.tally.count uncounted (still_held uncounted released)
      if r.2 then .checking { job with status := some r.1, tally := tally } none else .idle

/-- What a step leads to, if it can be taken. -/
def next (s : State ρ) : Label ρ → Option (State ρ)
  | .create pod =>
    if pod.uid ∈ s.used ∨ pod.name ∈ s.pods.map Pod.name then none
    else
      let pods := s.pods ++ [{ pod with version := s.revision + 1 }]
      some { s with
        toStore := { s.put only_replace_failed_pods pods with used := insert pod.uid s.used } }
  | .change name phase deleting =>
    let pods := change_pods s.pods name fun p =>
      { p with phase := phase, deleting := deleting, version := s.revision + 1 }
    some { s with toStore := s.put only_replace_failed_pods pods }
  | .delete name =>
    let pods := s.pods.filter fun p => p.name ≠ name
    some { s with toStore := s.put only_replace_failed_pods pods }
  | .strip name =>
    let pods := change_pods s.pods name fun p =>
      { (remove_tracking_finalizer p).2 with version := s.revision + 1 }
    some { s with toStore := s.put only_replace_failed_pods pods }
  | .touch =>
    let version := s.revision + 1
    some { s with
      toStore := { s.toStore with job := { s.job with version := version }, revision := version } }
  | .sync =>
    match s.stage with
    | .idle => some { s with stage := .listing s.job }
    | _ => none
  | .list pods never_count_failed rest =>
    match s.stage with
    | .listing job =>
      let o := { never_count_failed := never_count_failed,
                 only_replace_failed_pods := only_replace_failed_pods : TrackOptions }
      let r := track_terminated_pods s.expected job.status pods o
      let tally := job.tally.count (uncounted_of job.status) (uids_with_finalizer r.2 pods)
      some { s with
        expected := r.2
        stage := .checking { job with status := some (status_of r.1 rest), tally := tally }
          (some r.1.to_release) }
    | _ => none
  | .check fails =>
    match s.stage with
    | .checking job to_release =>
      -- an error is taken for a Job that is gone
      if fails then some { s with stage := written job to_release }
      else
        let r := write_status s.job job
        some { s with stage := if r.2 then .writing r.1 to_release else written r.1 to_release }
    | _ => none
  | .write outcome =>
    match s.stage with
    | .writing job to_release =>
      let version := s.revision + 1
      let stored := { s.toStore with job := { job with version := version }, revision := version }
      if job.version ≠ s.job.version then some { s with stage := .idle }
      else match outcome with
        | .ok => some { s with
            toStore := stored, stage := written { job with version := version } to_release }
        | .failed true => some { s with toStore := stored, stage := .idle }
        | .failed false => some { s with stage := .idle }
    | _ => none
  | .get fails =>
    match s.stage with
    | .releasing job (pod :: pods) released =>
      match if fails then none else s.pods.find? fun p => p.name = pod.name with
      | none => some { s with
          expected := s.expected.erase pod.uid
          stage := .releasing job pods (insert pod.uid released) }
      | some fresh =>
        if (remove_tracking_finalizer fresh).1 then
          some { s with
            expected := insert pod.uid s.expected
            stage := .removing job fresh pod.uid pods released }
        else some { s with stage := .releasing job pods (insert pod.uid released) }
    | _ => none
  | .update outcome =>
    match s.stage with
    | .removing job fresh uid pods released =>
      let stored := s.put only_replace_failed_pods (update_pods s.pods fresh (s.revision + 1))
      let current := s.pods.any fun p => p.name = fresh.name && p.version = fresh.version
      if outcome = .ok ∧ current then
        some { s with toStore := stored, stage := .releasing job pods (insert uid released) }
      else
        some { s with
          toStore := if outcome = .failed true then stored else s.toStore
          expected := s.expected.erase uid
          stage := .releasing job pods released }
    | _ => none
  | .fold =>
    match s.stage with
    | .releasing job [] released => some { s with stage := folded job released }
    | _ => none
  | .observe uid => some { s with expected := s.expected.erase uid }
  | .give_up =>
    match s.stage with
    | .listing _ => some { s with stage := .idle }
    | .checking _ (some _) => some { s with stage := .idle }
    | _ => none
  | .restart => some { s with stage := .idle, expected := ∅ }

def Label.allowed (s : State ρ) : Label ρ → Prop
  | .list pods _ _ => pods.Perm s.pods
  | _ => True

/-- The Job's counter, absent being zero. -/
def Job.succeeded (job : Job ρ) : Int := (job.status.bind fun s => s.succeeded).getD 0

def Job.failed (job : Job ρ) : Int := (job.status.bind fun s => s.failed).getD 0

def Job.parked (job : Job ρ) : UncountedTerminatedPods := uncounted_of job.status

/-- The accounting of a Job that has counted nothing yet, over pods of different names and
    UIDs. -/
def job_tracking (ρ : Type) [DecidableEq ρ] (only_replace_failed_pods : Bool) :
    System (State ρ) (Label ρ) where
  init := fun s =>
    (s.pods.map Pod.name).Nodup ∧ (s.pods.map Pod.uid).Nodup ∧ (∀ p ∈ s.pods, p.uid ∈ s.used) ∧
      (∀ p ∈ s.pods, p.version ≤ s.revision) ∧ s.job.version ≤ s.revision ∧
      s.job.succeeded = 0 ∧ s.job.failed = 0 ∧ s.job.parked.parked = [] ∧
      s.job.tally = {} ∧ s.terminated = finished only_replace_failed_pods s.pods ∧
      s.stage = .idle ∧ s.expected = ∅
  step := fun s l s' => l.allowed s ∧ next only_replace_failed_pods s l = some s'

end system

end Jobs
