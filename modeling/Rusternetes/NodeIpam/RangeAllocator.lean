import Rusternetes.Framework.LTS
import Rusternetes.NodeIpam.Taken

/-! # The Range Allocator

    `RangeAllocator`: workers that give pod CIDRs to nodes, and a loop that follows the
    nodes by watches and relists and releases the CIDRs of those that are gone. A step is
    one access to the storage or one call to a CIDR set; all others may act in between.

    * A patch may fail without effect; one that fails on the network may have been applied.
    * A watch delivers the events of a node in their order, from when it was opened on. It
      is opened before the nodes are listed, so it also delivers what the list has seen.
    * Nodes are created, changed and deleted by others; only the allocator writes pod CIDRs.
-/

open Framework LTS

namespace NodeIpam

/-! ### Nodes -/

/-- A node, as far as the allocator looks at it. -/
structure Node where
  name : String
  uid : Nat
  /-- Whether it has a deletion timestamp. -/
  deleting : Bool := false
  pod_cidr : Option IpNet := none
  pod_cidrs : Option (List IpNet) := none

/-- A node's pod CIDRs, falling back to the singular field when the list is absent. -/
def node_pod_cidrs (node : Node) : List IpNet :=
  match node.pod_cidrs with
  | some c => if c.isEmpty then node.pod_cidr.toList else c
  | none => node.pod_cidr.toList

/-- The union of two lists, those of the patch in its order, the others in theirs. -/
def merge_scalar_lists (original patch : List IpNet) : List IpNet :=
  let merged := (original ++ patch).eraseDups
  let right := (merged.filter fun c => c ∈ patch).mergeSort
    fun a b => patch.idxOf a ≤ patch.idxOf b
  let left := (merged.filter fun c => c ∉ patch).mergeSort
    fun a b => original.idxOf a ≤ original.idxOf b
  left.merge right fun l r => l ∈ original && r ∈ original && original.idxOf l < original.idxOf r

/-- The node with the patch of `patch_node_cidrs` applied; a list of CIDRs that it has
    already is merged. -/
def patch_node_cidrs (node : Node) (cidrs : List IpNet) : Node :=
  { node with
    pod_cidr := cidrs.head?
    pod_cidrs := some ((node.pod_cidrs.map fun existing => merge_scalar_lists existing cidrs).getD
      cidrs) }

/-! ### Construction -/

/-- The cluster CIDRs, at most one for each family, with their node masks, and the service
    CIDRs. -/
structure NodeIpamConfig where
  cluster_cidrs : List IpNet
  node_masks : List Nat
  service_cidrs : List IpNet
  families : (cluster_cidrs.map IpNet.family).Nodup

/-- A CIDR with the index of its set. -/
abbrev Item := Nat × IpNet

/-- `iter().enumerate()`. -/
def enumerate (cidrs : List IpNet) : List Item := cidrs.zipIdx.map Prod.swap

def create_sets (cfg : NodeIpamConfig) : Option (List CidrSet) :=
  (cfg.cluster_cidrs.zip cfg.node_masks).mapM fun p => (CidrSet.new p.1 p.2).toOption

def IpNet.contains (n : IpNet) (family : Family) (addr : Nat) : Bool :=
  family = n.family && addr / 2 ^ n.host_bits = n.addr / 2 ^ n.host_bits

def filter_out_service_range (sets : List CidrSet) (service_cidr : IpNet) : List CidrSet :=
  sets.map fun set =>
    if set.cluster.contains service_cidr.family service_cidr.network ||
        service_cidr.contains set.cluster.family set.cluster.network then
      set.left_by (set.occupy service_cidr)
    else set

/-- One round of `occupy_cidrs`; `none` if it fails. -/
def occupy_cidr (sets : List CidrSet) (item : Item) : Option (List CidrSet) := do
  let set ← sets[item.1]?
  let set ← (set.occupy item.2).toOption
  some (sets.set item.1 set)

/-- One round of `release_cidr`; `none` if it fails. -/
def release_cidr (sets : List CidrSet) (item : Item) : Option (List CidrSet) := do
  let set ← sets[item.1]?
  let set ← (set.release item.2).toOption
  some (sets.set item.1 set)

def occupy_cidrs (sets : List CidrSet) (node : Node) : Option (List CidrSet) :=
  (enumerate (node_pod_cidrs node)).foldlM occupy_cidr sets

/-- `RangeAllocator::new`; an error is fatal. -/
def new (cfg : NodeIpamConfig) (nodes : List Node) : Option (List CidrSet) := do
  let sets ← create_sets cfg
  nodes.foldlM occupy_cidrs (cfg.service_cidrs.foldl filter_out_service_range sets)

/-! ### The system -/

def CIDR_UPDATE_RETRIES : Nat := 3

/-- Where a worker stands. -/
inductive Phase where
  | idle
  /-- Before the get of `sync_node`. -/
  | syncing (name : String)
  | occupying (items : List Item)
  | allocating (name : String) (allocated : List IpNet)
  /-- Before the get of `update_cidrs_allocation`. -/
  | fetching (name : String) (allocated : List IpNet)
  /-- With so many attempts left after the next. -/
  | patching (name : String) (allocated : List IpNet) (left : Nat)
  | releasing (items : List Item)

/-- What a watch tells about a node. -/
inductive WatchEvent where
  | added (node : Node)
  | modified (node : Node)
  /-- With the node as it was. -/
  | deleted (prev : Node)

/-- What becomes of an attempt to patch. -/
inductive Outcome where
  | ok
  | failed
  | network (applied : Bool)
  deriving DecidableEq

/-- The sets, the storage, the workers of type `ω` and the loop. -/
structure State (ω : Type) where
  sets : List CidrSet
  stored : String → Option Node
  /-- The uids given out so far are below. -/
  issued : Nat
  worker : ω → Phase
  known : String → Option Node
  watching : Bool
  /-- Whether the nodes were listed since the watch was opened. -/
  listed : Bool
  /-- The events of each node that are not yet delivered. -/
  pending : String → List WatchEvent
  /-- The CIDRs the loop is about to release, node by node. -/
  releasing : List (List Item)

inductive Label (ω : Type) where
  | create (name : String)
  | delete (name : String)
  | change (name : String) (deleting : Bool)
  | sync (w : ω) (name : String)
  | get (w : ω) (fails : Bool)
  | occupy (w : ω)
  | allocate (w : ω)
  | fetch (w : ω) (fails : Bool)
  | patch (w : ω) (outcome : Outcome)
  | release (w : ω)
  | watch
  /-- With the nodes that are gone, in the order of the map. -/
  | relist (gone : List String)
  | event (name : String)
  | release_gone
  | disconnect

section system

variable {ω : Type} [DecidableEq ω]

def State.go (s : State ω) (w : ω) (phase : Phase) : State ω :=
  { s with worker := Function.update s.worker w phase }

/-- What is stored for a node changes, and the watch will tell. -/
def State.write (s : State ω) (name : String) (node : Option Node) (e : WatchEvent) : State ω :=
  { s with
    stored := Function.update s.stored name node
    pending := if s.watching then Function.update s.pending name (s.pending name ++ [e])
      else s.pending }

/-- Whether a worker has nothing to do. -/
def Phase.free : Phase → Bool
  | .idle => true
  | .occupying [] => true
  | .releasing [] => true
  | _ => false

def sync_node (name : String) (node : Option Node) : Phase :=
  match node with
  | none => .idle
  | some node =>
    if node.deleting then .idle
    else if (node_pod_cidrs node).isEmpty then .allocating name []
    else .occupying (enumerate (node_pod_cidrs node))

def update_cidrs_allocation (name : String) (allocated : List IpNet) (node : Option Node) : Phase :=
  match node with
  -- the CIDRs are not released
  | none => .idle
  | some node =>
    if node_pod_cidrs node = allocated then .idle
    else if (node_pod_cidrs node).isEmpty then .patching name allocated (CIDR_UPDATE_RETRIES - 1)
    else .releasing (enumerate allocated)

def patch_failed (name : String) (allocated : List IpNet) (left : Nat) (network : Bool) : Phase :=
  match left with
  | left + 1 => .patching name allocated left
  -- it may have gone through: better leak the CIDRs
  | 0 => if network then .idle else .releasing (enumerate allocated)

/-- The attempt takes effect on the node that is stored, if there is one. -/
def State.patched (s : State ω) (name : String) (allocated : List IpNet) : Option (State ω) := do
  let node ← s.stored name
  let node := patch_node_cidrs node allocated
  some (s.write name (some node) (.modified node))

def State.handle (s : State ω) (name : String) : WatchEvent → State ω
  | .added node => { s with known := Function.update s.known name (some node) }
  | .modified node => { s with known := Function.update s.known name (some node) }
  | .deleted prev =>
    match s.known name with
    | none => s
    | some _ => { s with
        known := Function.update s.known name none
        releasing := [enumerate (node_pod_cidrs prev)] }

/-- What a step leads to, if it can be taken. -/
def next (s : State ω) : Label ω → Option (State ω)
  | .create name =>
    match s.stored name with
    | some _ => none
    | none =>
      let node := { name := name, uid := s.issued : Node }
      some { s.write name (some node) (.added node) with issued := s.issued + 1 }
  | .delete name => do
    let node ← s.stored name
    some (s.write name none (.deleted node))
  | .change name deleting => do
    let node ← s.stored name
    let node := { node with deleting := deleting }
    some (s.write name (some node) (.modified node))
  | .sync w name => if (s.worker w).free then some (s.go w (.syncing name)) else none
  | .get w fails =>
    match s.worker w with
    | .syncing name => some (s.go w (if fails then .idle else sync_node name (s.stored name)))
    | _ => none
  | .occupy w =>
    match s.worker w with
    | .occupying (item :: rest) =>
      match occupy_cidr s.sets item with
      | some sets => some { s.go w (.occupying rest) with sets := sets }
      | none => some (s.go w .idle)
    | _ => none
  | .allocate w =>
    match s.worker w with
    | .allocating name allocated =>
      match s.sets[allocated.length]? with
      | none => some (s.go w (.fetching name allocated))
      | some set =>
        match set.allocate_next with
        | .ok (cidr, set) => some { s.go w (.allocating name (allocated ++ [cidr])) with
            sets := s.sets.set allocated.length set }
        -- the CIDRs of earlier sets are not released
        | .error _ => some (s.go w .idle)
    | _ => none
  | .fetch w fails =>
    match s.worker w with
    | .fetching name allocated => some (s.go w
        (if fails then .idle else update_cidrs_allocation name allocated (s.stored name)))
    | _ => none
  | .patch w outcome =>
    match s.worker w with
    | .patching name allocated left =>
      match outcome with
      | .ok => (s.patched name allocated).map fun s => s.go w .idle
      | .failed => some (s.go w (patch_failed name allocated left false))
      | .network true =>
        (s.patched name allocated).map fun s => s.go w (patch_failed name allocated left true)
      | .network false => some (s.go w (patch_failed name allocated left true))
    | _ => none
  | .release w =>
    match s.worker w with
    | .releasing (item :: rest) =>
      -- an error is only logged
      some { s.go w (.releasing rest) with sets := (release_cidr s.sets item).getD s.sets }
    | _ => none
  | .watch =>
    if s.releasing.isEmpty then
      some { s with watching := true, listed := false, pending := fun _ => [] }
    else none
  | .relist gone =>
    if s.watching && !s.listed && s.releasing.isEmpty then
      some { s with
        known := s.stored
        listed := true
        releasing := gone.map fun name =>
          enumerate (((s.known name).map node_pod_cidrs).getD []) }
    else none
  | .event name =>
    if s.listed && s.releasing.isEmpty then
      match s.pending name with
      | [] => none
      | e :: es => some ({ s with pending := Function.update s.pending name es }.handle name e)
    else none
  | .release_gone =>
    match s.releasing with
    | [] => none
    | [] :: others => some { s with releasing := others }
    | (item :: rest) :: others =>
      match release_cidr s.sets item with
      | some sets => some { s with sets := sets, releasing := rest :: others }
      -- the rest of the node is given up
      | none => some { s with releasing := others }
  | .disconnect =>
    if s.releasing.isEmpty then
      some { s with watching := false, listed := false, pending := fun _ => [] }
    else none

/-- A relist finds the nodes that are gone, each once. -/
def Label.allowed (s : State ω) : Label ω → Prop
  | .relist gone => gone.Nodup ∧ ∀ name, name ∈ gone ↔ (s.known name).isSome ∧ s.stored name = none
  | _ => True

def find_node (nodes : List Node) (name : String) : Option Node :=
  nodes.find? fun node => node.name = name

def range_allocator (ω : Type) [DecidableEq ω] (cfg : NodeIpamConfig) (nodes : List Node) :
    System (State ω) (Label ω) where
  init := fun s =>
    new cfg nodes = some s.sets ∧ s.stored = find_node nodes ∧ s.known = find_node nodes ∧
      (∀ node ∈ nodes, node.uid < s.issued) ∧ (∀ w, s.worker w = .idle) ∧
      s.watching = false ∧ s.listed = false ∧ s.pending = (fun _ => []) ∧ s.releasing = []
  step := fun s l s' => l.allowed s ∧ next s l = some s'

end system

end NodeIpam
