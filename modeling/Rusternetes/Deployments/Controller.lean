import Mathlib
import Rusternetes.Framework.Json
import Rusternetes.Framework.Roster
import Rusternetes.Framework.Text

/-! # The Deployment Controller

    One reconcile of a Deployment: it claims the ReplicaSets of its namespace, finds the
    one of the current template among them, and moves replicas from the old ones to it
    at the pace that the strategy allows.

    The state is what the namespace holds: ReplicaSets and pods. What the controller
    writes to the Deployment itself (its revision annotation and its status) is read by
    no step and left out.

    Counts are `i32` and revisions `i64`, and their sums and differences wrap around, as
    in a build without overflow checks.
-/

namespace Deployments

open Framework

/-! ### Objects -/

structure OwnerReference where
  kind : String
  name : String
  uid : String
  controller : Option Bool

structure ReplicaSetStatus where
  available_replicas : Int32

structure ReplicaSet where
  name : String
  uid : String
  labels : Option (List (String × String)) := none
  annotations : List (String × String) := []
  owner_references : List OwnerReference := []
  creation_timestamp : Option Int := none
  replicas : Int32
  template : Json
  min_ready_seconds : Option Int32 := none
  status : Option ReplicaSetStatus := none

structure PodCondition where
  condition_type : String
  status : String
  last_transition_time : Option Int

structure Pod where
  name : String
  owner_references : List OwnerReference
  deletion_timestamp : Option Int := none
  conditions : List PodCondition := []

inductive IntOrString where
  | int (i : Int32)
  | string (s : String)

def IntOrString.to_string : IntOrString → String
  | .int i => toString i
  | .string s => s

structure RollingUpdateDeployment where
  max_unavailable : Option IntOrString := none
  max_surge : Option IntOrString := none

structure DeploymentStrategy where
  strategy_type : String
  rolling_update : Option RollingUpdateDeployment := none

structure Deployment where
  name : String
  uid : String
  deletion_timestamp : Option Int := none
  replicas : Option Int32 := none
  match_labels : Option (List (String × String)) := none
  template : Json
  strategy : Option DeploymentStrategy := none
  min_ready_seconds : Option Int32 := none
  revision_history_limit : Option Int32 := none
  paused : Option Bool := none

/-- What a namespace holds. -/
structure World where
  replicasets : Roster ReplicaSet ReplicaSet.name
  pods : List Pod

/-- What a reconcile takes from elsewhere: floating point, the digest of a template, the
    clock, and the uid of an object it creates. -/
structure Platform where
  /-- The percentage of a number, rounded up. -/
  percent (pct : String) (total : Int32) : Int32
  /-- `replicas * allowed_size / old_max`, rounded. -/
  share (replicas allowed_size old_max : Int32) : Int32
  /-- The first four bytes of the digest of a template's text, in hexadecimal. -/
  digest (template : Json) : String
  now : Int
  new_uid : String

/-! ### Numbers -/

def parse_i32 (s : String) : Option Int32 :=
  ((Text.parse_i64 s).filter fun n => -2 ^ 31 ≤ n ∧ n < 2 ^ 31).map Int32.ofInt

def parse_int_or_percent (p : Platform) (s : String) (total : Int32) : Int32 :=
  if Text.ends_with s '%' then p.percent (Text.trim_end_matches s '%') total
  else (parse_i32 s).getD 1

def compute_rolling_update_counts (p : Platform) (desired : Int32)
    (max_surge max_unavailable : String) : Int32 × Int32 :=
  (parse_int_or_percent p max_surge desired, parse_int_or_percent p max_unavailable desired)

namespace Deployment

variable (d : Deployment)

def desired_replicas : Int32 := d.replicas.getD 1

def is_rolling_update : Bool :=
  match d.strategy with
  | some s => s.strategy_type = "RollingUpdate"
  | none => true

def rolling_update_params : String × String :=
  match d.strategy.bind DeploymentStrategy.rolling_update with
  | some ru =>
    ((ru.max_surge.map IntOrString.to_string).getD "25%",
      (ru.max_unavailable.map IntOrString.to_string).getD "25%")
  | none => ("25%", "25%")

def rolling_update_counts (p : Platform) : Int32 × Int32 :=
  compute_rolling_update_counts p d.desired_replicas d.rolling_update_params.1
    d.rolling_update_params.2

def max_surge (p : Platform) : Int32 := (d.rolling_update_counts p).1

def max_unavailable (p : Platform) : Int32 := (d.rolling_update_counts p).2

end Deployment

/-! ### Templates -/

/-- The value at a path of member names, changed. -/
def change_at (f : List (String × Json) → List (String × Json)) : List String → Json → Json
  | [], .object fields => .object (f fields)
  | key :: path, .object fields =>
    match fields.lookup key with
    | some v => .object (Json.insert_field fields key (change_at f path v))
    | none => .object fields
  | _, v => v

/-- Take a member out if its value meets a condition. -/
def remove_if (meets : Json → Bool) (key : String) (fields : List (String × Json)) :
    List (String × Json) :=
  if (fields.lookup key).any meets then Json.remove_field fields key else fields

def strip_container (fields : List (String × Json)) : List (String × Json) :=
  let fields := remove_if (· = .string "/dev/termination-log") "terminationMessagePath" fields
  let fields := remove_if (· = .string "File") "terminationMessagePolicy" fields
  let fields := Json.remove_field fields "imagePullPolicy"
  remove_if (· = .object []) "resources" fields

def strip_containers (key : String) (fields : List (String × Json)) : List (String × Json) :=
  match fields.lookup key with
  | some (.array containers) =>
    Json.insert_field fields key (.array (containers.map (change_at strip_container [])))
  | _ => fields

def strip_pod_spec (fields : List (String × Json)) : List (String × Json) :=
  let fields := remove_if (· = .string "ClusterFirst") "dnsPolicy" fields
  let fields := remove_if (· = .string "Always") "restartPolicy" fields
  let fields := remove_if (· = .string "default-scheduler") "schedulerName" fields
  let fields := remove_if (· = .number "30") "terminationGracePeriodSeconds" fields
  let fields := remove_if (fun v => v.is_null || v = .object []) "securityContext" fields
  let fields := ["nodeName", "nodeSelector", "hostname", "subdomain", "priority",
    "runtimeClassName", "overhead", "serviceAccountName", "serviceAccount",
    "automountServiceAccountToken", "preemptionPolicy"].foldl
      (fun fields key => remove_if (fun v => v.is_null || v = .string "") key fields) fields
  let fields := strip_containers "initContainers" (strip_containers "containers" fields)
  remove_if (fun v => v = .array [] || v.is_null) "volumes" fields

def strip_template (template : Json) : Json :=
  change_at strip_pod_spec ["spec"]
    (change_at (fun labels => Json.remove_field labels "pod-template-hash") ["metadata", "labels"]
      template)

/-- Whether the ReplicaSet has the Deployment's template, up to defaults and the hash. -/
def replicaset_matches_template (rs : ReplicaSet) (d : Deployment) : Bool :=
  strip_template rs.template = strip_template d.template

/-! ### Claiming -/

def is_owned_by_deployment (rs : ReplicaSet) (d : Deployment) : Bool :=
  rs.owner_references.any fun owner =>
    owner.kind = "Deployment" ∧ owner.name = d.name ∧ owner.uid = d.uid

def labels_match (rs : ReplicaSet) (d : Deployment) : Bool :=
  match d.match_labels, rs.labels with
  | some match_labels, some labels => match_labels.all fun l => labels.lookup l.1 = some l.2
  | _, _ => false

def owner_reference (d : Deployment) : OwnerReference :=
  { kind := "Deployment", name := d.name, uid := d.uid, controller := some true }

def adopt (d : Deployment) (rs : ReplicaSet) : ReplicaSet :=
  if is_owned_by_deployment rs d || rs.owner_references.any (fun r => r.controller = some true) ||
      !labels_match rs d then rs
  else { rs with owner_references := rs.owner_references ++ [owner_reference d] }

def adopt_replicasets (d : Deployment) (w : World) : World :=
  { w with replicasets := w.replicasets.change (adopt d) (by
      intro rs
      unfold adopt
      split_ifs <;> rfl) }

def World.owned (w : World) (d : Deployment) : List ReplicaSet :=
  w.replicasets.items.filter fun rs => is_owned_by_deployment rs d

/-! ### Revisions -/

def REVISION : String := "deployment.kubernetes.io/revision"

def DESIRED_REPLICAS : String := "deployment.kubernetes.io/desired-replicas"

def MAX_REPLICAS : String := "deployment.kubernetes.io/max-replicas"

def template_hash (rs : ReplicaSet) : String :=
  (rs.labels.bind fun labels => labels.lookup "pod-template-hash").getD ""

def revision (rs : ReplicaSet) : Option Int64 :=
  ((rs.annotations.lookup REVISION).bind Text.parse_i64).map Int64.ofInt

def max_revision (rss : List ReplicaSet) : Int64 := ((rss.filterMap revision).max?).getD 0

def set_revisions (p : Platform) (d : Deployment) (owned : List ReplicaSet) (w : World) : World :=
  let hash := p.digest d.template
  let max_old_revision := max_revision (owned.filter fun rs => template_hash rs ≠ hash)
  let new_rs_revision := max_revision (owned.filter fun rs => template_hash rs = hash)
  let new_revision := max (max_old_revision + 1) new_rs_revision
  let revision_str := toString (max new_revision 1)
  owned.foldl (fun w rs =>
    if template_hash rs = hash ∧ (rs.annotations.lookup REVISION).getD "" ≠ revision_str then
      let annotations := Assoc.set rs.annotations REVISION revision_str
      { w with replicasets := w.replicasets.set { rs with annotations } }
    else w) w

/-! ### Writing ReplicaSets -/

/-- Set `spec.replicas` on a fresh read. Nothing else takes the ReplicaSet away in
    between, so the read finds it. -/
def update_replicaset_replicas (w : World) (rs : ReplicaSet) (replicas : Int32) : World :=
  match w.replicasets.find rs.name with
  | some fresh =>
    if fresh.replicas = replicas then w
    else { w with replicasets := w.replicasets.set { fresh with replicas } }
  | none => w

def set_desired_replicas_annotation (w : World) (rs : ReplicaSet) (desired max_surge : Int32) :
    World :=
  match w.replicasets.find rs.name with
  | some fresh =>
    let annotations := Assoc.set (Assoc.set fresh.annotations DESIRED_REPLICAS (toString desired))
      MAX_REPLICAS (toString (desired + max_surge))
    { w with replicasets := w.replicasets.set { fresh with annotations } }
  | none => w

def labelled_template (template : Json) (hash : String) : Json :=
  match template with
  | .object fields =>
    let metadata := match fields.lookup "metadata" with
      | some (.object metadata) => metadata
      | _ => []
    let labels := match metadata.lookup "labels" with
      | some (.object labels) => labels
      | _ => []
    .object (Json.insert_field fields "metadata" (.object (Json.insert_field metadata "labels"
      (.object (Json.insert_field labels "pod-template-hash" (.string hash))))))
  | v => v

def template_labels (template : Json) : List (String × String) :=
  match (template.get "metadata").bind fun metadata => metadata.get "labels" with
  | some (.object labels) => labels.filterMap fun l => l.2.as_str.map fun s => (l.1, s)
  | _ => []

def new_replicaset (p : Platform) (d : Deployment) (replicas : Int32) (w : World) : ReplicaSet :=
  let hash := p.digest d.template
  let max_existing_revision := max_revision
    (w.replicasets.items.filter fun rs => rs.owner_references.any fun r => r.name = d.name)
  let desired := d.desired_replicas
  let local_max_surge :=
    ((d.strategy.bind DeploymentStrategy.rolling_update).bind fun ru =>
      ru.max_surge.map IntOrString.to_string).getD "25%"
  let surge := parse_int_or_percent p local_max_surge desired
  { name := d.name ++ "-" ++ hash
    uid := p.new_uid
    creation_timestamp := some p.now
    labels := some (Assoc.set (template_labels d.template) "pod-template-hash" hash)
    annotations := Assoc.set (Assoc.set (Assoc.set [] REVISION (toString (max_existing_revision + 1)))
      DESIRED_REPLICAS (toString desired)) MAX_REPLICAS (toString (desired + surge))
    owner_references := [owner_reference d]
    replicas
    template := labelled_template d.template hash
    min_ready_seconds := d.min_ready_seconds }

/-- Create the ReplicaSet of the current template; one that is there already is left. -/
def create_replicaset_with_replicas (p : Platform) (d : Deployment) (replicas : Int32) (w : World) :
    World :=
  { w with replicasets := w.replicasets.create (new_replicaset p d replicas w) }

def create_replicaset (p : Platform) (d : Deployment) (w : World) : World :=
  create_replicaset_with_replicas p d d.desired_replicas w

/-! ### Availability -/

def ready_condition (pod : Pod) : Option PodCondition :=
  pod.conditions.find? fun cond => cond.condition_type = "Ready" ∧ cond.status = "True"

/-- The pods that count as available: ready for long enough. Without any pod the
    ReplicaSet's own count stands. -/
def count_available_pods_min_ready (p : Platform) (pods : List Pod) (rs : ReplicaSet) : Int32 :=
  let min_ready := (max (rs.min_ready_seconds.getD 0) 0).toInt
  let owned := pods.filter fun pod => pod.owner_references.any fun r => r.name = rs.name
  if owned.isEmpty then (rs.status.map ReplicaSetStatus.available_replicas).getD 0
  else
    .ofNat (owned.countP fun pod =>
      match ready_condition pod with
      | some cond =>
        decide (min_ready = 0) ||
          match cond.last_transition_time with
          | some t => min_ready ≤ p.now - t
          | none => true
      | none => false)

def count_available_pods_for_rs (pods : List Pod) (rs_name : String) : Int32 :=
  .ofNat (pods.countP fun pod =>
    (pod.owner_references.any fun r => r.name = rs_name) && (ready_condition pod).isSome)

/-! ### Draining the old ReplicaSets -/

/-- `Option` in the source's order: an object without the stamp comes first. -/
def created_by (a b : ReplicaSet) : Bool :=
  match a.creation_timestamp, b.creation_timestamp with
  | none, _ => true
  | some _, none => false
  | some x, some y => x ≤ y

/-- Take replicas away, ReplicaSet after ReplicaSet, as many as `amount` says and the
    budget allows. -/
def drain (amount : String → Int32 → Int32) (budget : Int32) :
    List ReplicaSet → (String → Int32) → Int32 → String → Int32
  | [], cur, _ => cur
  | rs :: rest, cur, done =>
    if budget ≤ done then cur
    else
      let scale := min (amount rs.name (cur rs.name)) (budget - done)
      if cur rs.name = 0 ∨ scale ≤ 0 then drain amount budget rest cur done
      else
        drain amount budget rest (Function.update cur rs.name (cur rs.name - scale)) (done + scale)

def cleanup_unhealthy_replicas (available : String → Int32) (max_scaled_down : Int32)
    (ordered : List ReplicaSet) (cur : String → Int32) : String → Int32 :=
  drain (fun name cur => max (cur - available name) 0) max_scaled_down ordered cur 0

/-- Drop available replicas. -/
def scale_down_healthy (healthy_budget : Int32) (ordered : List ReplicaSet)
    (cur : String → Int32) : String → Int32 :=
  drain (fun _ cur => cur) healthy_budget ordered cur 0

def by_name (rss : List ReplicaSet) (f : ReplicaSet → Int32) (name : String) : Int32 :=
  ((rss.find? fun rs => rs.name = name).map f).getD 0

def old_targets (p : Platform) (pods : List Pod) (owned : List ReplicaSet) (active_name : String)
    (new_active_replicas desired_replicas max_unavailable : Int32) : String → Int32 :=
  let min_available := max (desired_replicas - max_unavailable) 0
  let old := owned.filter fun rs => rs.name ≠ active_name
  let replicas := by_name old ReplicaSet.replicas
  if old.all (fun rs => rs.replicas = 0) then replicas
  else
    let new_rs_available :=
      match owned.find? fun rs => rs.name = active_name with
      | some new_rs => count_available_pods_min_ready p pods new_rs
      | none => 0
    let new_rs_unavailable := max (new_active_replicas - new_rs_available) 0
    let all_pods_count := new_active_replicas + (old.map ReplicaSet.replicas).sum
    let max_scaled_down := max (all_pods_count - min_available - new_rs_unavailable) 0
    if max_scaled_down ≤ 0 then replicas
    else
      let available := by_name old (count_available_pods_min_ready p pods)
      let ordered := old.insertionSort fun a b => created_by a b = true
      let total_available := new_rs_available + (old.map fun rs => available rs.name).sum
      let healthy_budget := max (total_available - min_available) 0
      scale_down_healthy healthy_budget ordered
        (cleanup_unhealthy_replicas available max_scaled_down ordered replicas)

def reconcile_old_replicasets (p : Platform) (w : World) (owned : List ReplicaSet)
    (active_name : String) (new_active_replicas desired_replicas max_unavailable : Int32) : World :=
  let targets := old_targets p w.pods owned active_name new_active_replicas desired_replicas
    max_unavailable
  (owned.filter fun rs => rs.name ≠ active_name).foldl (fun w rs =>
    if targets rs.name ≠ rs.replicas then update_replicaset_replicas w rs (targets rs.name) else w) w

/-! ### Scaling events -/

def active_rs (d : Deployment) (owned : List ReplicaSet) : Option ReplicaSet :=
  owned.find? fun rs => replicaset_matches_template rs d

def old_rs_total (d : Deployment) (owned : List ReplicaSet) : Int32 :=
  ((owned.filter fun rs =>
    match active_rs d owned with
    | some active => rs.name ≠ active.name
    | none => true).map ReplicaSet.replicas).sum

/-- Whether `spec.replicas` changed while a rolling update is on its way. -/
def is_scaling_event (d : Deployment) (owned : List ReplicaSet) : Bool :=
  d.is_rolling_update && decide (0 < old_rs_total d owned) &&
    (owned.filter fun rs => 0 < rs.replicas).any fun rs =>
      ((rs.annotations.lookup DESIRED_REPLICAS).bind parse_i32).any (· ≠ d.desired_replicas)

def single_active_rs (owned : List ReplicaSet) : Option ReplicaSet :=
  match owned.filter fun rs => 0 < rs.replicas with
  | [only] => some only
  | _ => none

/-- The bigger ReplicaSet first; of two of a size the older, or when scaling up the newer. -/
def sorts_before (scaling_up : Bool) (a b : ReplicaSet) : Bool :=
  if a.replicas ≠ b.replicas then b.replicas < a.replicas
  else if a.creation_timestamp ≠ b.creation_timestamp then
    if scaling_up then created_by b a else created_by a b
  else a.name ≤ b.name

def proportion (p : Platform) (allowed_size all_rs_replicas replicas_to_add added : Int32)
    (rs : ReplicaSet) : Int32 :=
  let old_max := ((rs.annotations.lookup MAX_REPLICAS).bind parse_i32).getD all_rs_replicas
  let fraction :=
    if 0 < old_max then p.share rs.replicas allowed_size old_max - rs.replicas else 0
  let allowed := replicas_to_add - added
  if 0 < replicas_to_add then max (min fraction allowed) 0 else min (max fraction allowed) 0

/-- Go through the ReplicaSets: what was added, and the counts that change. -/
def distribute (p : Platform) (allowed_size all_rs_replicas replicas_to_add : Int32) :
    List ReplicaSet → Int32 → Int32 × List (String × Int32)
  | [], added => (added, [])
  | rs :: rest, added =>
    if rs.replicas = 0 then distribute p allowed_size all_rs_replicas replicas_to_add rest added
    else
      let proportion := proportion p allowed_size all_rs_replicas replicas_to_add added rs
      let new_replicas := max (rs.replicas + proportion) 0
      let (total, updates) :=
        distribute p allowed_size all_rs_replicas replicas_to_add rest (added + proportion)
      (total, if new_replicas ≠ rs.replicas then (rs.name, new_replicas) :: updates else updates)

/-- The first of the changed ReplicaSets takes what rounding left over. -/
def with_leftover (leftover : Int32) : List (String × Int32) → List (String × Int32)
  | [] => []
  | (name, replicas) :: rest => (name, max (replicas + leftover) 0) :: rest

def proportional_updates (p : Platform) (d : Deployment) (owned : List ReplicaSet) :
    List (String × Int32) :=
  let all_rs_replicas := (owned.map ReplicaSet.replicas).sum
  let allowed_size := d.desired_replicas + d.max_surge p
  let replicas_to_add := allowed_size - all_rs_replicas
  let sorted_rss := owned.insertionSort fun a b => sorts_before (0 < replicas_to_add) a b = true
  let (added, updates) := distribute p allowed_size all_rs_replicas replicas_to_add sorted_rss 0
  if replicas_to_add ≠ added then with_leftover (replicas_to_add - added) updates else updates

def apply_updates (owned : List ReplicaSet) (updates : List (String × Int32)) (w : World) : World :=
  updates.foldl (fun w u =>
    match owned.find? fun rs => rs.name = u.1 with
    | some rs => update_replicaset_replicas w rs u.2
    | none => w) w

def annotate_active (p : Platform) (d : Deployment) (owned : List ReplicaSet) (w : World) : World :=
  (owned.filter fun rs => 0 < rs.replicas).foldl
    (fun w rs => set_desired_replicas_annotation w rs d.desired_replicas (d.max_surge p)) w

/-! ### The rollout -/

def scale_to_zero (rss : List ReplicaSet) (w : World) : World :=
  (rss.filter fun rs => 0 < rs.replicas).foldl (fun w rs => update_replicaset_replicas w rs 0) w

def cleanup_saturated (d : Deployment) (owned : List ReplicaSet) (active : ReplicaSet) (w : World) :
    World :=
  let active_available :=
    match active.status with
    | some status => status.available_replicas
    | none => count_available_pods_for_rs w.pods active.name
  let new_rs_saturated :=
    active.replicas = d.desired_replicas ∧ active_available = d.desired_replicas
  if new_rs_saturated ∧ 0 < old_rs_total d owned ∧ is_scaling_event d owned = false then
    scale_to_zero (owned.filter fun rs => rs.name ≠ active.name) w
  else w

def rollout_active (p : Platform) (d : Deployment) (owned : List ReplicaSet) (active : ReplicaSet)
    (w : World) : World :=
  let desired := d.desired_replicas
  let w := cleanup_saturated d owned active w
  if d.is_rolling_update ∧ active.replicas < desired ∧ 0 < old_rs_total d owned then
    let max_total := desired + d.max_surge p
    let current_pod_count := (owned.map ReplicaSet.replicas).sum
    let scale_up_count := min (max (max_total - current_pod_count) 0) (desired - active.replicas)
    let new_active_replicas := active.replicas + scale_up_count
    let w :=
      if new_active_replicas ≠ active.replicas then
        update_replicaset_replicas w active new_active_replicas
      else w
    reconcile_old_replicasets p w owned active.name new_active_replicas desired (d.max_unavailable p)
  else
    let w := if active.replicas ≠ desired then update_replicaset_replicas w active desired else w
    if d.is_rolling_update then
      reconcile_old_replicasets p w owned active.name desired desired (d.max_unavailable p)
    else if desired ≤ count_available_pods_for_rs w.pods active.name ∧ 0 < old_rs_total d owned then
      scale_to_zero (owned.filter fun rs => rs.name ≠ active.name) w
    else w

def remains (owned : List ReplicaSet) (pod : Pod) : Bool :=
  pod.deletion_timestamp.isNone &&
    pod.owner_references.any fun r =>
      r.kind = "ReplicaSet" ∧ owned.any (fun rs => r.uid = rs.uid) = true

/-- The rollout when the current template has no ReplicaSet yet. -/
def rollout_new (p : Platform) (d : Deployment) (owned : List ReplicaSet) (w : World) : World :=
  if !d.is_rolling_update ∧ 0 < old_rs_total d owned then
    let w := scale_to_zero owned w
    if w.pods.any (remains owned) then w else create_replicaset p d w
  else if d.is_rolling_update ∧ 0 < old_rs_total d owned then
    let max_total := d.desired_replicas + d.max_surge p
    let scale_up_count := max (max_total - old_rs_total d owned) 0
    let initial_replicas := max (min scale_up_count d.desired_replicas) 0
    create_replicaset_with_replicas p d initial_replicas w
  else create_replicaset p d w

/-- Delete the oldest of the old, empty ReplicaSets beyond the history limit. -/
def cleanup (d : Deployment) (w : World) : World :=
  let limit := d.revision_history_limit.getD 10
  if 0 ≤ limit then
    let old_rses := ((w.owned d).filter fun rs =>
      !replicaset_matches_template rs d && decide (rs.replicas = 0)).insertionSort
        fun a b => (revision a).getD 0 ≤ (revision b).getD 0
    let to_delete := Int32.ofNat old_rses.length - limit
    let deleted := old_rses.take to_delete.toInt.toNat
    { w with replicasets := w.replicasets.keep fun rs => deleted.all fun gone => gone.name ≠ rs.name }
  else w

def rollout (p : Platform) (d : Deployment) (owned : List ReplicaSet) (w : World) : World :=
  match active_rs d owned with
  | some active =>
    if old_rs_total d owned = 0 ∧ active.replicas ≠ d.desired_replicas then
      update_replicaset_replicas w active d.desired_replicas
    else cleanup d (rollout_active p d owned active w)
  | none => cleanup d (rollout_new p d owned w)

/-- A scaling event over several ReplicaSets, and whether it ends the reconcile. -/
def scale_proportionally (p : Platform) (d : Deployment) (owned : List ReplicaSet) (w : World) :
    World × Bool :=
  if (owned.map ReplicaSet.replicas).sum ≠ d.desired_replicas + d.max_surge p then
    let updates := proportional_updates p d owned
    (annotate_active p d owned (apply_updates owned updates w), !updates.isEmpty)
  else (w, false)

def sync (p : Platform) (d : Deployment) (owned : List ReplicaSet) (w : World) : World :=
  if is_scaling_event d owned then
    match single_active_rs owned with
    | some only =>
      if only.replicas ≠ d.desired_replicas then
        set_desired_replicas_annotation (update_replicaset_replicas w only d.desired_replicas) only
          d.desired_replicas (d.max_surge p)
      else rollout p d owned w
    | none =>
      let (w, finished) := scale_proportionally p d owned w
      if finished then w else rollout p d owned w
  else rollout p d owned w

def reconcile_deployment (p : Platform) (d : Deployment) (w : World) : World :=
  if d.deletion_timestamp.isSome then w
  else
    let w := adopt_replicasets d w
    let owned := w.owned d
    let w := set_revisions p d owned w
    if d.paused.getD false then w else sync p d owned w

end Deployments
