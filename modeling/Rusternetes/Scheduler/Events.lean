import Mathlib

/-! # Cluster Events and Queueing Hints

    `crates/scheduler/src/queue/events.rs`: what can happen in the cluster, how
    a registered event is matched with an incoming one, and how the update of
    a pod is read as a list of events. `Pod` has the fields that the queue and
    these functions read.
-/

namespace Scheduler

/-! ### Pods -/

structure PodResourceClaimStatus where
  name : String
  resource_claim_name : Option String
  deriving DecidableEq

structure ContainerExtendedResourceRequest where
  container_name : String
  request_name : String
  resource_name : String
  deriving DecidableEq

structure PodExtendedResourceClaimStatus where
  request_mappings : List ContainerExtendedResourceRequest
  resource_claim_name : String
  deriving DecidableEq

/-- `Toleration`, of which only the number is read here. -/
structure Toleration where
  key : Option String
  effect : Option String
  deriving DecidableEq

structure PodSchedulingGate where
  name : String
  deriving DecidableEq

/-- The fields of a pod that the scheduling queue reads. -/
structure Pod where
  /-- `metadata.namespace`. -/
  ns : Option String
  /-- `metadata.name`. -/
  name : String
  /-- `metadata.uid`. -/
  uid : String
  /-- `metadata.labels`. -/
  labels : Option (AList (fun _ : String => String))
  /-- `spec.node_name`. -/
  node_name : Option String
  /-- `spec.scheduler_name`. -/
  scheduler_name : Option String
  /-- `spec.priority`. -/
  priority : Option Int
  /-- `spec.tolerations`. -/
  tolerations : Option (List Toleration)
  /-- `spec.scheduling_gates`. -/
  scheduling_gates : Option (List PodSchedulingGate)
  /-- `status.nominated_node_name`. -/
  nominated_node_name : Option String
  /-- `status.resource_claim_statuses`. -/
  resource_claim_statuses : Option (List PodResourceClaimStatus)
  /-- `status.extended_resource_claim_status`. -/
  extended_resource_claim_status : Option PodExtendedResourceClaimStatus
  /-- What `pod_requests_opts` computes for the pod, in milli-units. -/
  requests : AList (fun _ : String => Int)

def pod_key (pod : Pod) : String :=
  pod.ns.getD "" ++ "/" ++ pod.name

def pod_scheduler_name (pod : Pod) : String :=
  pod.scheduler_name.getD "default-scheduler"

/-! ### Events -/

abbrev ActionType := Nat

namespace ActionType

def ADD : ActionType := 1 <<< 0
def DELETE : ActionType := 1 <<< 1
def UPDATE_NODE_ALLOCATABLE : ActionType := 1 <<< 2
def UPDATE_NODE_LABEL : ActionType := 1 <<< 3
def UPDATE_NODE_TAINT : ActionType := 1 <<< 4
def UPDATE_NODE_CONDITION : ActionType := 1 <<< 5
def UPDATE_NODE_ANNOTATION : ActionType := 1 <<< 6
def UPDATE_NODE_DECLARED_FEATURE : ActionType := 1 <<< 7
def UPDATE_POD_LABEL : ActionType := 1 <<< 8
def UPDATE_POD_SCALE_DOWN : ActionType := 1 <<< 9
def UPDATE_POD_TOLERATION : ActionType := 1 <<< 10
def UPDATE_POD_SCHEDULING_GATES_ELIMINATED : ActionType := 1 <<< 11
def UPDATE_POD_GENERATED_RESOURCE_CLAIM : ActionType := 1 <<< 12
def ALL : ActionType := (1 <<< 13) - 1
def NONE : ActionType := 0

def UPDATE : ActionType :=
  UPDATE_NODE_ALLOCATABLE ||| UPDATE_NODE_LABEL ||| UPDATE_NODE_TAINT |||
  UPDATE_NODE_CONDITION ||| UPDATE_NODE_ANNOTATION ||| UPDATE_NODE_DECLARED_FEATURE |||
  UPDATE_POD_LABEL ||| UPDATE_POD_SCALE_DOWN ||| UPDATE_POD_TOLERATION |||
  UPDATE_POD_SCHEDULING_GATES_ELIMINATED ||| UPDATE_POD_GENERATED_RESOURCE_CLAIM

end ActionType

inductive EventResource where
  | Pod
  | AssignedPod
  | UnschedulablePod
  | Node
  | PersistentVolume
  | PersistentVolumeClaim
  | CsiNode
  | CsiDriver
  | VolumeAttachment
  | CsiStorageCapacity
  | StorageClass
  | ResourceClaim
  | ResourceSlice
  | DeviceClass
  | Workload
  | WildCard
  deriving DecidableEq

structure ClusterEvent where
  resource : EventResource
  action_type : ActionType
  custom_label : String
  deriving DecidableEq

def ClusterEvent.new (resource : EventResource) (action_type : ActionType) : ClusterEvent :=
  ⟨resource, action_type, ""⟩

/-- The `Display` of `ActionType`; a combination without a name shows nothing. -/
def ActionType.display (a : ActionType) : String :=
  if a = ADD then "Add"
  else if a = DELETE then "Delete"
  else if a = UPDATE_NODE_ALLOCATABLE then "UpdateNodeAllocatable"
  else if a = UPDATE_NODE_LABEL then "UpdateNodeLabel"
  else if a = UPDATE_NODE_TAINT then "UpdateNodeTaint"
  else if a = UPDATE_NODE_CONDITION then "UpdateNodeCondition"
  else if a = UPDATE_NODE_ANNOTATION then "UpdateNodeAnnotation"
  else if a = UPDATE_NODE_DECLARED_FEATURE then "UpdateNodeDeclaredFeature"
  else if a = UPDATE_POD_LABEL then "UpdatePodLabel"
  else if a = UPDATE_POD_SCALE_DOWN then "UpdatePodScaleDown"
  else if a = UPDATE_POD_TOLERATION then "UpdatePodToleration"
  else if a = UPDATE_POD_SCHEDULING_GATES_ELIMINATED then "UpdatePodSchedulingGatesEliminated"
  else if a = UPDATE_POD_GENERATED_RESOURCE_CLAIM then "UpdatePodGeneratedResourceClaim"
  else if a = ALL then "All"
  else if a = UPDATE then "Update"
  else ""

/-- The `Display` of `EventResource`. -/
def EventResource.display : EventResource → String
  | .Pod => "Pod"
  | .AssignedPod => "AssignedPod"
  | .UnschedulablePod => "UnschedulablePod"
  | .Node => "Node"
  | .PersistentVolume => "PersistentVolume"
  | .PersistentVolumeClaim => "PersistentVolumeClaim"
  | .CsiNode => "storage.k8s.io/CSINode"
  | .CsiDriver => "storage.k8s.io/CSIDriver"
  | .VolumeAttachment => "storage.k8s.io/VolumeAttachment"
  | .CsiStorageCapacity => "storage.k8s.io/CSIStorageCapacity"
  | .StorageClass => "storage.k8s.io/StorageClass"
  | .ResourceClaim => "resource.k8s.io/ResourceClaim"
  | .ResourceSlice => "resource.k8s.io/ResourceSlice"
  | .DeviceClass => "resource.k8s.io/DeviceClass"
  | .Workload => "scheduling.k8s.io/Workload"
  | .WildCard => "*"

def ClusterEvent.label (e : ClusterEvent) : String :=
  if e.custom_label != "" then e.custom_label else e.resource.display ++ e.action_type.display

def SCHEDULE_ATTEMPT_FAILURE : String := "ScheduleAttemptFailure"
def BACKOFF_COMPLETE : String := "BackoffComplete"
def FORCE_ACTIVATE : String := "ForceActivate"
def UNSCHEDULABLE_TIMEOUT : String := "UnschedulableTimeout"

def EVENT_UNSCHEDULED_POD_ADD : ClusterEvent := .new .UnschedulablePod ActionType.ADD
def EVENT_UNSCHEDULED_POD_UPDATE : ClusterEvent := .new .UnschedulablePod ActionType.UPDATE
def EVENT_UNSCHEDULABLE_TIMEOUT : ClusterEvent :=
  ⟨.WildCard, ActionType.ALL, UNSCHEDULABLE_TIMEOUT⟩
def EVENT_FORCE_ACTIVATE : ClusterEvent := ⟨.WildCard, ActionType.ALL, FORCE_ACTIVATE⟩

inductive QueueingHint where
  | QueueSkip
  | Queue
  deriving DecidableEq

/-- `EventObject`, the object an event carries: a pod, or an object of another
    kind (the hint functions look inside it, the queue does not). -/
inductive EventObject (Obj : Type) where
  | pod (pod : Pod)
  | other (obj : Obj)

/-! ### Matching -/

def cluster_event_is_wild_card (ce : ClusterEvent) : Bool :=
  ce.resource == .WildCard && ce.action_type == ActionType.ALL

def match_event_resources (r resource : EventResource) : Bool :=
  r == .WildCard || r == resource ||
    (r == .Pod && (resource == .AssignedPod || resource == .UnschedulablePod))

/-- `match_cluster_events`: the incoming event is the same as `ce`, or more
    specific. -/
def match_cluster_events (ce incoming_event : ClusterEvent) : Bool :=
  cluster_event_is_wild_card ce ||
    (match_event_resources ce.resource incoming_event.resource &&
      (ce.action_type &&& incoming_event.action_type) != ActionType.NONE &&
      decide (incoming_event.action_type ≤ ce.action_type))

def match_any_cluster_event (ce : ClusterEvent) (incoming_events : List ClusterEvent) : Bool :=
  incoming_events.any fun e => match_cluster_events e ce

/-! ### The update of a pod as events -/

/-- `is_label_changed`: the maps differ, absent and empty being the same. -/
def is_label_changed (new_labels old_labels : Option (AList (fun _ : String => String))) : Bool :=
  !decide ((new_labels.getD ∅).entries.Perm (old_labels.getD ∅).entries)

def extract_pod_labels_change (new_pod old_pod : Pod) : ActionType :=
  if is_label_changed new_pod.labels old_pod.labels then ActionType.UPDATE_POD_LABEL
  else ActionType.NONE

/-- `extract_pod_scale_down`: some request is removed or reduced. -/
def extract_pod_scale_down (new_pod old_pod : Pod) : ActionType :=
  let reduced := old_pod.requests.entries.any fun e =>
    match new_pod.requests.lookup e.1 with
    | none => true
    | some new_req => decide (e.2 > new_req)
  if reduced then ActionType.UPDATE_POD_SCALE_DOWN else ActionType.NONE

def extract_pod_scheduling_gate_eliminated_change (new_pod old_pod : Pod) : ActionType :=
  let len := fun p : Pod => (p.scheduling_gates.getD []).length
  if len new_pod == 0 && len old_pod != 0 then ActionType.UPDATE_POD_SCHEDULING_GATES_ELIMINATED
  else ActionType.NONE

def extract_pod_toleration_change (new_pod old_pod : Pod) : ActionType :=
  let len := fun p : Pod => (p.tolerations.getD []).length
  if len new_pod != len old_pod then ActionType.UPDATE_POD_TOLERATION else ActionType.NONE

def extract_pod_generated_resource_claim_change (new_pod old_pod : Pod) : ActionType :=
  let statuses_equal :=
    new_pod.resource_claim_statuses.getD [] == old_pod.resource_claim_statuses.getD []
  let extended_equal :=
    new_pod.extended_resource_claim_status == old_pod.extended_resource_claim_status
  if !statuses_equal || !extended_equal then ActionType.UPDATE_POD_GENERATED_RESOURCE_CLAIM
  else ActionType.NONE

/-- `pod_scheduling_properties_change`: one event for each kind of change, and
    the general update when there is none. -/
def pod_scheduling_properties_change (new_pod old_pod : Pod) : List ClusterEvent :=
  let r := if new_pod.node_name.getD "" == "" then EventResource.UnschedulablePod
    else EventResource.AssignedPod
  let extractors : List (Pod → Pod → ActionType) :=
    [extract_pod_labels_change, extract_pod_scale_down,
      extract_pod_scheduling_gate_eliminated_change, extract_pod_toleration_change,
      extract_pod_generated_resource_claim_change]
  let events := extractors.filterMap fun f =>
    let event := f new_pod old_pod
    if event != ActionType.NONE then some (ClusterEvent.new r event) else none
  if events.isEmpty then [ClusterEvent.new r ActionType.UPDATE] else events

end Scheduler
