import Rusternetes.Framework.Json
import Rusternetes.NodeGraph.Graph

/-! # The Node Authorizer's Graph: What Objects Refer To

    The objects that the graph is told of, with the fields that are read, and the
    visitors that list what they refer to. Volumes and the specs of persistent
    volumes are also read in their serialized form, which may be any value here.
-/

open Framework

namespace NodeGraph

/-! ### Pods -/

/-- `EnvVarSource`: the names of the secret and the config map it selects from. -/
structure EnvVarSource where
  secret_key_ref : Option String
  config_map_key_ref : Option String

structure EnvVar where
  value_from : Option EnvVarSource

/-- `EnvFromSource`: the names of the secret and the config map. -/
structure EnvFromSource where
  secret_ref : Option String
  config_map_ref : Option String

/-- `Container` and `EphemeralContainer`. -/
structure Container where
  env : Option (List EnvVar)
  env_from : Option (List EnvFromSource)

/-- `ConfigMapProjection` and `ConfigMapVolumeSource`. -/
structure ConfigMapSource where
  name : Option String

structure VolumeProjection where
  config_map : Option ConfigMapSource

structure ProjectedVolumeSource where
  sources : Option (List VolumeProjection)

structure PersistentVolumeClaimVolumeSource where
  claim_name : String

structure Volume where
  name : String
  persistent_volume_claim : Option PersistentVolumeClaimVolumeSource
  /-- Whether there is an `ephemeral` source. -/
  ephemeral : Bool
  projected : Option ProjectedVolumeSource
  config_map : Option ConfigMapSource
  /-- The serialized volume, if serializing succeeds. -/
  value : Option Json

structure PodResourceClaim where
  name : String
  resource_claim_name : Option String
  resource_claim_template_name : Option String

structure PodResourceClaimStatus where
  name : String
  resource_claim_name : Option String

structure PodExtendedResourceClaimStatus where
  resource_claim_name : String

structure PodSpec where
  containers : List Container
  init_containers : Option (List Container)
  ephemeral_containers : Option (List Container)
  volumes : Option (List Volume)
  node_name : Option String
  service_account_name : Option String
  /-- The names of the references. -/
  image_pull_secrets : Option (List String)
  resource_claims : Option (List PodResourceClaim)

structure PodStatus where
  resource_claim_statuses : Option (List PodResourceClaimStatus)
  extended_resource_claim_status : Option PodExtendedResourceClaimStatus

structure Pod where
  ns : Option String
  name : String
  annotations : Option (List (String × String))
  spec : Option PodSpec
  status : Option PodStatus

def mirror_pod_annotation_key : String := "kubernetes.io/config.mirror"

namespace Pod

def namespace_or_empty (pod : Pod) : String := pod.ns.getD ""

def node_name (pod : Pod) : String := (pod.spec.bind (·.node_name)).getD ""

def is_mirror (pod : Pod) : Bool :=
  (pod.annotations.getD []).any fun a => a.1 = mirror_pod_annotation_key

end Pod

/-! ### The visitors -/

def push (name : String) : List String := if name = "" then [] else [name]

def push_some (name : Option String) : List String := (name.map push).getD []

def resource_claim_name (pod : Pod) (pod_claim : PodResourceClaim) : Option String :=
  match pod_claim.resource_claim_name with
  | some name => some name
  | none =>
    if pod_claim.resource_claim_template_name.isSome then
      (((pod.status.bind (·.resource_claim_statuses)).getD []).find? fun status =>
        status.name = pod_claim.name).bind (·.resource_claim_name)
    else none

/-- `visit_container_env`: what `visit` finds in the init containers, the
    containers and the ephemeral containers. -/
def visit_container_env (pod : Pod)
    (visit : Option (List EnvVar) → Option (List EnvFromSource) → List String) : List String :=
  match pod.spec with
  | none => []
  | some spec =>
    (spec.init_containers.getD [] ++ spec.containers ++ spec.ephemeral_containers.getD []).flatMap
      fun c => visit c.env c.env_from

def json_str (v : Json) (path : List String) : Option String :=
  (path.foldlM Json.get v).bind Json.as_str

def json_present (v : Json) (key : String) : Option Json :=
  (v.get key).filter fun x => !x.is_null

/-- The secrets of a volume: its first populated source decides. -/
def volume_secret_names (source : Json) : List String :=
  let secret_ref (s : Json) := push_some (json_str s ["secretRef", "name"])
  if let some s := json_present source "azureFile" then push ((json_str s ["secretName"]).getD "")
  else if let some s := json_present source "cephfs" then secret_ref s
  else if let some s := json_present source "cinder" then secret_ref s
  else if let some s := json_present source "flexVolume" then secret_ref s
  else if let some s := json_present source "projected" then
    (((s.get "sources").bind Json.as_array).getD []).flatMap fun src =>
      match json_present src "secret" with
      | some secret => push ((json_str secret ["name"]).getD "")
      | none => []
  else if let some s := json_present source "rbd" then secret_ref s
  else if let some s := json_present source "secret" then
    push ((json_str s ["secretName"]).getD "")
  else if let some s := json_present source "scaleIO" then secret_ref s
  else if let some s := json_present source "iscsi" then secret_ref s
  else if let some s := json_present source "storageos" then secret_ref s
  else if let some s := json_present source "csi" then
    push_some (json_str s ["nodePublishSecretRef", "name"])
  else []

def visit_pod_secret_names (pod : Pod) : List String :=
  match pod.spec with
  | none => []
  | some spec =>
    (spec.image_pull_secrets.getD []).flatMap push ++
    visit_container_env pod (fun env env_from =>
      (env_from.getD []).flatMap (fun e => push_some e.secret_ref) ++
      (env.getD []).flatMap (fun e => push_some (e.value_from.bind (·.secret_key_ref)))) ++
    (spec.volumes.getD []).flatMap fun volume => (volume.value.map volume_secret_names).getD []

def visit_pod_configmap_names (pod : Pod) : List String :=
  match pod.spec with
  | none => []
  | some spec =>
    visit_container_env pod (fun env env_from =>
      (env_from.getD []).flatMap (fun e => push_some e.config_map_ref) ++
      (env.getD []).flatMap (fun e => push_some (e.value_from.bind (·.config_map_key_ref)))) ++
    (spec.volumes.getD []).flatMap fun volume =>
      match volume.projected with
      | some projected =>
        (projected.sources.getD []).flatMap fun src =>
          match src.config_map with
          | some c => push (c.name.getD "")
          | none => []
      | none =>
        match volume.config_map with
        | some c => push (c.name.getD "")
        | none => []

def volume_claim_name (pod : Pod) (volume : Volume) : String :=
  match volume.persistent_volume_claim with
  | some pvc => pvc.claim_name
  | none => if volume.ephemeral then pod.name ++ "-" ++ volume.name else ""

/-- What `add_pod` relates to a pod, in its order: nothing for a mirror pod. -/
def Pod.references (pod : Pod) : List Key :=
  let keys (t : VertexType) (names : List String) : List Key :=
    names.map fun name => ⟨t, pod.namespace_or_empty, name⟩
  if pod.is_mirror then []
  else
    match pod.spec with
    | none => []
    | some spec =>
      keys .ServiceAccount (push_some spec.service_account_name) ++
      keys .Secret (visit_pod_secret_names pod) ++
      keys .ConfigMap (visit_pod_configmap_names pod) ++
      keys .Pvc ((spec.volumes.getD []).flatMap fun volume => push (volume_claim_name pod volume)) ++
      keys .ResourceClaim ((spec.resource_claims.getD []).filterMap (resource_claim_name pod)) ++
      keys .ResourceClaim
        (push_some ((pod.status.bind (·.extended_resource_claim_status)).map (·.resource_claim_name)))

/-! ### Persistent volumes -/

structure ObjectReference where
  ns : Option String
  name : Option String

structure PersistentVolume where
  name : String
  claim_ref : Option ObjectReference
  /-- The serialized spec, if serializing succeeds. -/
  spec : Option Json

/-- A secret of a volume: its namespace and name, and whether kubelets see it. -/
def push_pv (ns name : String) (kubelet_visible : Bool) : List (String × String × Bool) :=
  if name = "" then [] else [(ns, name, kubelet_visible)]

def visit_pv_secret_names (pv : PersistentVolume) : List (String × String × Bool) :=
  match pv.spec with
  | none => []
  | some spec =>
    let claim_ns := (pv.claim_ref.bind (·.ns)).getD ""
    let has_secret_ref (s : Json) : Bool := (s.get "secretRef").any fun r => !r.is_null
    let secret_ref_name (s : Json) := (json_str s ["secretRef", "name"]).getD ""
    -- the namespace of the secret, or of the claim when it is not set
    let ns_defaulting_to_claim (s : Json) :=
      if has_secret_ref s then
        push_pv (((json_str s ["secretRef", "namespace"]).filter (· ≠ "")).getD claim_ns)
          (secret_ref_name s) true
      else []
    let ns_as_given (s : Json) :=
      if has_secret_ref s then
        push_pv ((json_str s ["secretRef", "namespace"]).getD "") (secret_ref_name s) true
      else []
    if let some s := json_present spec "azureFile" then
      push_pv (((json_str s ["secretNamespace"]).filter (· ≠ "")).getD claim_ns)
        ((json_str s ["secretName"]).getD "") true
    else if let some s := json_present spec "cephfs" then ns_defaulting_to_claim s
    else if let some s := json_present spec "cinder" then ns_as_given s
    else if let some s := json_present spec "flexVolume" then ns_defaulting_to_claim s
    else if let some s := json_present spec "rbd" then ns_defaulting_to_claim s
    else if let some s := json_present spec "scaleIO" then ns_defaulting_to_claim s
    else if let some s := json_present spec "iscsi" then ns_defaulting_to_claim s
    else if let some s := json_present spec "storageos" then ns_as_given s
    else if let some s := json_present spec "csi" then
      [("controllerPublishSecretRef", false), ("controllerExpandSecretRef", false),
        ("nodePublishSecretRef", true), ("nodeStageSecretRef", true),
        ("nodeExpandSecretRef", true)].flatMap fun field =>
        match json_present s field.1 with
        | some r =>
          push_pv ((json_str r ["namespace"]).getD "") ((json_str r ["name"]).getD "") field.2
        | none => []
    else []

namespace PersistentVolume

def claim (pv : PersistentVolume) : Option Key :=
  pv.claim_ref.map fun claim_ref => ⟨.Pvc, claim_ref.ns.getD "", claim_ref.name.getD ""⟩

def visible_secrets (pv : PersistentVolume) : List Key :=
  (visit_pv_secret_names pv).filterMap fun s =>
    if s.2.2 then some ⟨.Secret, s.1, s.2.1⟩ else none

end PersistentVolume

end NodeGraph
