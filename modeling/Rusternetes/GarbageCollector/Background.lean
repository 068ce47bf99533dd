import Mathlib

/-! # Background Collection

    An object whose owners are all gone is deleted. The scan reports candidates from a
    snapshot that may be stale; before the deletion the object is read again, and each of
    its owners is looked up under a storage key built from the reference.
-/

namespace GarbageCollector

structure OwnerReference where
  kind : String
  name : String
  uid : String
  deriving DecidableEq

/-- What is read of an object's metadata. -/
structure ObjectMeta where
  uid : String
  namespace_ : Option String
  owner_references : Option (List OwnerReference)
  deriving DecidableEq

/-- An entry of the snapshot. -/
structure ResourceInfo where
  key : String
  metadata : ObjectMeta
  deriving DecidableEq

/-- A stored value: the text at `/metadata/uid`, and the metadata when it can be decoded. -/
structure Value where
  uid : Option String
  metadata : Option ObjectMeta
  deriving DecidableEq

inductive StorageError where
  | not_found
  | other

/-- What is stored; a key may also fail to be read. -/
structure Storage where
  content : String → Option Value
  faults : String → Bool

def Storage.get (s : Storage) (key : String) : Except StorageError Value :=
  if s.faults key then .error .other
  else
    match s.content key with
    | some v => .ok v
    | none => .error .not_found

/-! ### The scan -/

/-- Whether the snapshot has an object with the uid in a scope. -/
def has_uid (resources : List ResourceInfo) (scope : Option String) (uid : String) : Bool :=
  resources.any fun r => r.metadata.namespace_ = scope ∧ r.metadata.uid = uid

def find_orphans (resources : List ResourceInfo) : List ResourceInfo :=
  resources.filter fun resource =>
    match resource.metadata.owner_references with
    | none | some [] => false
    | some (ref :: refs) => (ref :: refs).all fun owner_ref =>
      let in_cluster_scope := has_uid resources none owner_ref.uid
      match resource.metadata.namespace_ with
      | some ns => !(has_uid resources (some ns) owner_ref.uid || in_cluster_scope)
      | none => !in_cluster_scope

/-! ### The check before the deletion -/

/-- The storage name of a kind, empty for a kind that is not in the table. -/
def kind_to_plural (kind : String) : String :=
  match kind with
  | "Pod" => "pods"
  | "Service" => "services"
  | "Endpoints" => "endpoints"
  | "EndpointSlice" => "endpointslices"
  | "Namespace" => "namespaces"
  | "Node" => "nodes"
  | "ConfigMap" => "configmaps"
  | "Secret" => "secrets"
  | "ServiceAccount" => "serviceaccounts"
  | "Deployment" => "deployments"
  | "ReplicaSet" => "replicasets"
  | "StatefulSet" => "statefulsets"
  | "DaemonSet" => "daemonsets"
  | "ReplicationController" => "replicationcontrollers"
  | "Job" => "jobs"
  | "CronJob" => "cronjobs"
  | "Ingress" => "ingresses"
  | "NetworkPolicy" => "networkpolicies"
  | "PersistentVolumeClaim" => "persistentvolumeclaims"
  | "PersistentVolume" => "persistentvolumes"
  | "StorageClass" => "storageclasses"
  | "ClusterRole" => "clusterroles"
  | "ClusterRoleBinding" => "clusterrolebindings"
  | "Role" => "roles"
  | "RoleBinding" => "rolebindings"
  | "CustomResourceDefinition" => "customresourcedefinitions"
  | "ControllerRevision" => "controllerrevisions"
  | "HorizontalPodAutoscaler" => "horizontalpodautoscalers"
  | "PodDisruptionBudget" => "poddisruptionbudgets"
  | "ResourceQuota" => "resourcequotas"
  | "LimitRange" => "limitranges"
  | _ => ""

def build_key (resource_type : String) (ns : Option String) (name : String) : String :=
  match ns with
  | some ns => "/registry/" ++ resource_type ++ "/" ++ ns ++ "/" ++ name
  | none => "/registry/" ++ resource_type ++ "/" ++ name

/-- The key an owner is looked up under: in the namespace of the dependent. -/
def owner_key (ns : Option String) (owner_ref : OwnerReference) : String :=
  build_key (kind_to_plural owner_ref.kind) ns owner_ref.name

/-- Whether a reference is verified as dangling. -/
def owner_gone (storage : Storage) (ns : Option String) (owner_ref : OwnerReference) : Bool :=
  if (kind_to_plural owner_ref.kind).isEmpty then false
  else
    match storage.get (owner_key ns owner_ref) with
    | .ok owner_value => owner_value.uid ≠ some owner_ref.uid
    | .error .not_found => true
    | .error .other => false

inductive Outcome where
  | kept
  | deleted
  | failed
  deriving DecidableEq

def delete_orphan_verified (storage : Storage) (orphan : ResourceInfo) : Outcome :=
  match storage.get orphan.key with
  | .error .not_found => .kept
  | .error .other => .failed
  | .ok fresh =>
    match fresh.metadata with
    | none => .kept
    | some fresh_meta =>
      match fresh_meta.owner_references with
      | none | some [] => .kept
      | some (ref :: refs) =>
        if (ref :: refs).all (owner_gone storage fresh_meta.namespace_) then .deleted else .kept

/-! ### Live owners -/

/-- An object with the uid is stored under a key, in the namespace or at cluster scope. -/
def Live (storage : Storage) (ns : Option String) (uid key : String) : Prop :=
  ∃ v m, storage.content key = some v ∧ v.uid = some uid ∧ v.metadata = some m ∧
    (m.namespace_ = ns ∨ m.namespace_ = none)

theorem deleted_spec {storage : Storage} {orphan : ResourceInfo}
    (h : delete_orphan_verified storage orphan = .deleted) :
    ∃ v m refs, storage.content orphan.key = some v ∧ v.metadata = some m ∧
      m.owner_references = some refs ∧
      ∀ ref ∈ refs, owner_gone storage m.namespace_ ref = true := by
  unfold delete_orphan_verified Storage.get at h
  split_ifs at h with hfault
  cases hv : storage.content orphan.key with
  | none => simp [hv] at h
  | some v =>
    simp only [hv] at h
    split at h
    · cases h
    · next m hm =>
      split at h
      · cases h
      · cases h
      · next hrefs =>
        split_ifs at h with hall
        exact ⟨v, m, _, rfl, hm, hrefs, List.all_eq_true.mp hall⟩

theorem kind_of_gone {storage : Storage} {ns : Option String} {ref : OwnerReference}
    (h : owner_gone storage ns ref = true) : kind_to_plural ref.kind ≠ "" := by
  intro hkind
  simp [owner_gone, hkind] at h

theorem not_live_of_gone {storage : Storage} {ns scope : Option String} {ref : OwnerReference}
    (h : owner_gone storage ns ref = true) :
    ¬ Live storage scope ref.uid (owner_key ns ref) := by
  rintro ⟨w, _, hw, huid, _⟩
  unfold owner_gone Storage.get at h
  split_ifs at h with hkind hfault
  simp only [hw, decide_eq_true_eq] at h
  exact h huid

/-- **Background collection.** When an orphan is deleted, none of the references of the stored
    object names the uid of an object in its namespace or at cluster scope, if and only if
    every such object is stored under the key the reference is looked up under. -/
theorem deleted_without_live_owner_iff {storage : Storage} {resources : List ResourceInfo}
    {orphan : ResourceInfo} (_horphan : orphan ∈ find_orphans resources)
    (hdeleted : delete_orphan_verified storage orphan = .deleted) :
    ∃ v m refs, storage.content orphan.key = some v ∧ v.metadata = some m ∧
      m.owner_references = some refs ∧
      ((∀ ref ∈ refs, ∀ key, ¬ Live storage m.namespace_ ref.uid key) ↔
        ∀ ref ∈ refs, ∀ key, Live storage m.namespace_ ref.uid key →
          key = owner_key m.namespace_ ref) := by
  obtain ⟨v, m, refs, hv, hm, hrefs, hgone⟩ := deleted_spec hdeleted
  refine ⟨v, m, refs, hv, hm, hrefs, ?_⟩
  constructor
  · intro hnone ref href key hlive
    exact absurd hlive (hnone ref href key)
  · intro hfound ref href key hlive
    obtain rfl := hfound ref href key hlive
    exact not_live_of_gone (hgone ref href) hlive

/-! ### The kinds and their scopes -/

/-- The kinds of the table whose objects have no namespace. -/
def cluster_scoped (kind : String) : Bool :=
  kind ∈ ["Namespace", "Node", "PersistentVolume", "StorageClass", "ClusterRole",
    "ClusterRoleBinding", "CustomResourceDefinition"]

/-- The key an object of the kind is stored under, from a dependent's namespace. -/
def home (ns : Option String) (ref : OwnerReference) : String :=
  build_key (kind_to_plural ref.kind) (if cluster_scoped ref.kind then none else ns) ref.name

theorem home_eq_owner_key_iff {ns : Option String} {ref : OwnerReference} :
    home ns ref = owner_key ns ref ↔ cluster_scoped ref.kind = false ∨ ns = none := by
  cases hkind : cluster_scoped ref.kind with
  | false => simp [home, owner_key, hkind]
  | true =>
    cases ns with
    | none => simp [home, owner_key, hkind]
    | some ns =>
      -- the namespace and its slash make the key longer
      have hslash : "/".length = 1 := rfl
      have hlength : (home (some ns) ref).length < (owner_key (some ns) ref).length := by
        simp [home, owner_key, build_key, hkind]
        omega
      simp only [Bool.true_eq_false, reduceCtorEq, or_self, iff_false]
      intro h
      rw [h] at hlength
      exact lt_irrefl _ hlength

/-- Where references name their owners rightly, an orphan that is deleted has no live owner of
    a namespaced kind, and none at all if it has no namespace itself: its kinds are in the
    table, and a live one is cluster-scoped. -/
theorem live_owner_of_deleted {storage : Storage} {orphan : ResourceInfo} {v : Value}
    {m : ObjectMeta} {refs : List OwnerReference}
    (hdeleted : delete_orphan_verified storage orphan = .deleted)
    (hv : storage.content orphan.key = some v) (hm : v.metadata = some m)
    (hrefs : m.owner_references = some refs)
    (hplaced : ∀ ref ∈ refs, ∀ key, Live storage m.namespace_ ref.uid key →
      key = home m.namespace_ ref) {ref : OwnerReference} (href : ref ∈ refs) :
    kind_to_plural ref.kind ≠ "" ∧
      ((∃ key, Live storage m.namespace_ ref.uid key) →
        cluster_scoped ref.kind = true ∧ m.namespace_ ≠ none) := by
  obtain ⟨v', m', refs', hv', hm', hrefs', hgone⟩ := deleted_spec hdeleted
  cases hv.symm.trans hv'
  cases hm.symm.trans hm'
  cases hrefs.symm.trans hrefs'
  refine ⟨kind_of_gone (hgone ref href), ?_⟩
  rintro ⟨key, hlive⟩
  obtain rfl := hplaced ref href key hlive
  by_contra hscope
  have hkey : home m.namespace_ ref = owner_key m.namespace_ ref := by
    rw [home_eq_owner_key_iff]
    cases hkind : cluster_scoped ref.kind <;> simp_all
  rw [hkey] at hlive
  exact not_live_of_gone (hgone ref href) hlive

/-! ### An owner at cluster scope -/

namespace Sample

/-- A ConfigMap in a namespace, owned by an object of the given kind. -/
def dependent (kind : String) : ObjectMeta := ⟨"u-dep", some "ns", some [⟨kind, "o", "u-owner"⟩]⟩

def dependent_key : String := build_key "configmaps" (some "ns") "c"

def storage (kind : String) (owner : Option (String × ObjectMeta)) : Storage where
  content key :=
    if key = dependent_key then some ⟨some "u-dep", some (dependent kind)⟩
    else owner.bind fun o => if key = o.1 then some ⟨some o.2.uid, some o.2⟩ else none
  faults _ := false

/-- A scan that has not seen the owner. -/
def snapshot (kind : String) : List ResourceInfo := [⟨dependent_key, dependent kind⟩]

def node : String × ObjectMeta := (build_key "nodes" none "o", ⟨"u-owner", none, none⟩)

end Sample

/-- A ConfigMap owned by a Node that exists is deleted: the Node is looked up in the namespace
    of the ConfigMap. -/
theorem cluster_scoped_owner_missed :
    ⟨Sample.dependent_key, Sample.dependent "Node"⟩ ∈ find_orphans (Sample.snapshot "Node") ∧
      delete_orphan_verified (Sample.storage "Node" (some Sample.node))
        ⟨Sample.dependent_key, Sample.dependent "Node"⟩ = .deleted ∧
      Live (Sample.storage "Node" (some Sample.node)) (some "ns") "u-owner" Sample.node.1 := by
  refine ⟨by decide, by decide, ?_⟩
  exact ⟨⟨some "u-owner", some Sample.node.2⟩, Sample.node.2, by decide +kernel, rfl, rfl, .inr rfl⟩

/-- A ConfigMap whose owner is gone is deleted, without a live owner. -/
theorem gone_owner_collected :
    delete_orphan_verified (Sample.storage "Job" none)
        ⟨Sample.dependent_key, Sample.dependent "Job"⟩ = .deleted ∧
      ∀ key, ¬ Live (Sample.storage "Job" none) (some "ns") "u-owner" key := by
  have hdeleted : delete_orphan_verified (Sample.storage "Job" none)
      ⟨Sample.dependent_key, Sample.dependent "Job"⟩ = .deleted := by decide
  have hnone : ∀ key, ¬ Live (Sample.storage "Job" none) (some "ns") "u-owner" key := by
    intro key ⟨v, m, hv, huid, _⟩
    simp only [Sample.storage, Option.bind_none] at hv
    split_ifs at hv with hkey
    cases hv
    nomatch huid
  have hreported : ⟨Sample.dependent_key, Sample.dependent "Job"⟩ ∈
      find_orphans (Sample.snapshot "Job") := by decide
  obtain ⟨v, m, refs, hv, hm, hrefs, hiff⟩ := deleted_without_live_owner_iff hreported hdeleted
  obtain rfl : (⟨some "u-dep", some (Sample.dependent "Job")⟩ : Value) = v :=
    Option.some.inj hv
  cases hm
  cases hrefs
  refine ⟨hdeleted, hiff.mpr ?_ _ (.head _)⟩
  intro ref href key hlive
  rw [List.mem_singleton.mp href] at hlive
  exact absurd hlive (hnone key)

end GarbageCollector
