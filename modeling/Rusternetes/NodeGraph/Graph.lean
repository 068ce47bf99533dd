import Mathlib
import Rusternetes.Framework.Search
import Rusternetes.Framework.Table

/-! # The Node Authorizer's Graph

    `GraphInner`: the vertices stand for API objects, the edges point toward the
    nodes of the cluster. Vertices are removed when they lose their last edge and
    their ids are used again. For vertices with many edges an index counts, for
    each node, the edges that are known to lead to it.

    A function that asserts something answers `none` when the assertion fails.
    The two-level maps of the source are kept for the edges; `vertices` is one map
    by type, namespace and name.
-/

open Framework

namespace NodeGraph

/-! ### Counted sets -/

structure IntSet where
  members : AList (fun _ : Nat => Nat)

namespace IntSet

def count (s : IntSet) (i : Nat) : Nat := (s.members.lookup i).getD 0

def has (s : IntSet) (i : Nat) : Bool := decide (s.count i > 0)

/-- `reset`, and an empty set. -/
def empty : IntSet := ⟨∅⟩

def increment (s : IntSet) (i : Nat) : IntSet := ⟨s.members.insert i (s.count i + 1)⟩

/-- `decrement`: counts below zero are not kept. -/
def decrement (s : IntSet) (i : Nat) : IntSet :=
  match s.count i with
  | 0 | 1 => ⟨s.members.erase i⟩
  | n => ⟨s.members.insert i (n - 1)⟩

@[simp] theorem count_empty (i : Nat) : empty.count i = 0 := by
  simp [empty, count]

theorem count_increment (s : IntSet) (i j : Nat) :
    (s.increment i).count j = if j = i then s.count i + 1 else s.count j := by
  rw [increment, count, Table.lookup_insert_ite]
  split_ifs <;> rfl

theorem count_decrement (s : IntSet) (i j : Nat) :
    (s.decrement i).count j = if j = i then s.count i - 1 else s.count j := by
  have herase : s.count i ≤ 1 → (⟨s.members.erase i⟩ : IntSet).count j =
      if j = i then s.count i - 1 else s.count j := by
    intro hle
    rw [count, Table.lookup_erase_ite]
    split_ifs
    · exact (Nat.sub_eq_zero_of_le hle).symm
    · rfl
  unfold decrement
  split
  · exact herase (by omega)
  · exact herase (by omega)
  · rw [count, Table.lookup_insert_ite]
    split_ifs <;> rfl

end IntSet

/-! ### Vertices and edges -/

inductive VertexType where
  | ConfigMap
  | Slice
  | Node
  | Pod
  | Pvc
  | Pv
  | ResourceClaim
  | Secret
  | Va
  | ServiceAccount
  | Pcr
  deriving DecidableEq, Repr

def VertexType.name : VertexType → String
  | .ConfigMap => "configmap"
  | .Slice => "resourceslice"
  | .Node => "node"
  | .Pod => "pod"
  | .Pvc => "pvc"
  | .Pv => "pv"
  | .ResourceClaim => "resourceclaim"
  | .Secret => "secret"
  | .Va => "volumeattachment"
  | .ServiceAccount => "serviceAccount"
  | .Pcr => "podcertificaterequest"

def VertexType.has_authoritative_index : VertexType → Bool
  | .ConfigMap | .Slice | .Pod | .Pvc | .ResourceClaim | .Va | .ServiceAccount | .Pcr => true
  | .Node | .Pv | .Secret => false

/-- What `vertices` is keyed by. -/
structure Key where
  vertex_type : VertexType
  ns : String
  name : String
  deriving DecidableEq, Repr

structure NamedVertex where
  key : Key
  id : Nat
  deriving DecidableEq, Repr

structure Edge where
  from_id : Nat
  to_id : Nat
  destination : Option Nat
  deriving DecidableEq, Repr

structure GraphInner where
  nodes : AList (fun _ : Nat => NamedVertex)
  /-- Each edge is stored under both its ends. -/
  edges : AList (fun _ : Nat => AList (fun _ : Nat => Edge))
  free_ids : Finset Nat
  used_ids : Finset Nat
  vertices : AList (fun _ : Key => Nat)
  destination_edge_index : AList (fun _ : Nat => IntSet)
  destination_edge_threshold : Nat

namespace GraphInner

def new (threshold : Nat) : GraphInner where
  nodes := ∅
  edges := ∅
  free_ids := ∅
  used_ids := ∅
  vertices := ∅
  destination_edge_index := ∅
  destination_edge_threshold := threshold

/-! ### The undirected graph below -/

def new_node_id (g : GraphInner) : GraphInner × Nat :=
  if g.nodes.entries.isEmpty then (g, 0)
  else if hfree : g.free_ids.Nonempty then
    let id := g.free_ids.min' hfree
    ({ g with free_ids := g.free_ids.erase id }, id)
  else (g, if hused : g.used_ids.Nonempty then g.used_ids.max' hused + 1 else 0)

def add_node (g : GraphInner) (vertex : NamedVertex) : Option GraphInner :=
  if (g.nodes.lookup vertex.id).isSome then none
  else some { g with
    nodes := g.nodes.insert vertex.id vertex
    edges := g.edges.insert vertex.id ∅
    free_ids := g.free_ids.erase vertex.id
    used_ids := insert vertex.id g.used_ids }

/-- Take `id` out of the edges held by `neighbor`. -/
def forget (id : Nat) (edges : AList (fun _ : Nat => AList (fun _ : Nat => Edge)))
    (neighbor : Nat) : AList (fun _ : Nat => AList (fun _ : Nat => Edge)) :=
  match edges.lookup neighbor with
  | some held => edges.insert neighbor (held.erase id)
  | none => edges

def remove_node (g : GraphInner) (id : Nat) : GraphInner :=
  match g.nodes.lookup id with
  | none => g
  | some _ =>
    { g with
      nodes := g.nodes.erase id
      edges :=
        match g.edges.lookup id with
        | some neighbors => neighbors.keys.foldl (forget id) (g.edges.erase id)
        | none => g.edges
      free_ids := insert id g.free_ids
      used_ids := g.used_ids.erase id }

/-- Store `e` under `a`, for its other end `b`. -/
def put (edges : AList (fun _ : Nat => AList (fun _ : Nat => Edge))) (a b : Nat) (e : Edge) :
    AList (fun _ : Nat => AList (fun _ : Nat => Edge)) :=
  edges.insert a (((edges.lookup a).getD ∅).insert b e)

def set_edge (g : GraphInner) (e : Edge) : Option GraphInner :=
  if e.from_id = e.to_id then none
  else if (g.nodes.lookup e.from_id).isNone || (g.nodes.lookup e.to_id).isNone then none
  else some { g with edges := put (put g.edges e.from_id e.to_id e) e.to_id e.from_id e }

def degree (g : GraphInner) (id : Nat) : Nat :=
  (g.edges.lookup id).elim 0 fun m => m.entries.length

def edge_between (g : GraphInner) (a b : Nat) : Option Edge :=
  (g.edges.lookup a).bind fun m => m.lookup b

def neighbors_from (g : GraphInner) (id : Nat) : List Nat :=
  (g.edges.lookup id).elim [] fun m =>
    ((m.entries.map (·.2)).filter (·.from_id = id)).map (·.to_id)

def neighbors_to (g : GraphInner) (id : Nat) : List Nat :=
  (g.edges.lookup id).elim [] fun m =>
    ((m.entries.map (·.2)).filter (·.to_id = id)).map (·.from_id)

/-! ### The destination index -/

def remove_edge_from_destination_index (g : GraphInner) (e : Edge) : GraphInner :=
  let n := e.from_id
  if g.degree n < g.destination_edge_threshold then
    { g with destination_edge_index := g.destination_edge_index.erase n }
  else
    match g.destination_edge_index.lookup n, e.destination with
    | some index, some destination =>
      { g with
        destination_edge_index := g.destination_edge_index.insert n (index.decrement destination) }
    | _, _ => g

/-- One turn of the loop of `recompute_destination_index`. -/
def count_edge (g : GraphInner) (n : Nat) (index : IntSet) (dest : Nat) : IntSet :=
  match (g.edge_between n dest).bind (·.destination) with
  | some destination => index.increment destination
  | none => index

def recompute_destination_index (g : GraphInner) (n : Nat) : GraphInner :=
  if g.degree n < g.destination_edge_threshold then
    { g with destination_edge_index := g.destination_edge_index.erase n }
  else
    { g with
      destination_edge_index :=
        g.destination_edge_index.insert n
          ((g.neighbors_from n).foldl (g.count_edge n) IntSet.empty) }

def add_edge_to_destination_index (g : GraphInner) (e : Edge) : GraphInner :=
  let n := e.from_id
  match g.destination_edge_index.lookup n with
  | none => g.recompute_destination_index n
  | some index =>
    match e.destination with
    | some destination =>
      { g with
        destination_edge_index := g.destination_edge_index.insert n (index.increment destination) }
    | none => g

def add_edge (g : GraphInner) (from_id to_id : Nat) (destination : Option Nat) :
    Option GraphInner :=
  let e : Edge := ⟨from_id, to_id, destination⟩
  match destination with
  | some _ => (g.set_edge e).map fun g => g.add_edge_to_destination_index e
  | none =>
    match g.nodes.lookup from_id with
    | none => none
    | some vertex =>
      if vertex.key.vertex_type.has_authoritative_index then none else g.set_edge e

/-! ### Vertices -/

def get_vertex_id (g : GraphInner) (k : Key) : Option Nat :=
  ((g.vertices.lookup k).bind fun id => g.nodes.lookup id).map (·.id)

def create_vertex (g : GraphInner) (k : Key) : Option (GraphInner × Nat) :=
  let (g, id) := g.new_node_id
  ({ g with vertices := g.vertices.insert k id }.add_node ⟨k, id⟩).map fun g => (g, id)

def get_or_create_vertex (g : GraphInner) (k : Key) : Option (GraphInner × Nat) :=
  match g.get_vertex_id k with
  | some id => some (g, id)
  | none => g.create_vertex k

def remove_vertex (g : GraphInner) (id : Nat) : GraphInner :=
  match g.nodes.lookup id with
  | none => g
  | some vertex =>
    let g := g.remove_node id
    { g with
      destination_edge_index := g.destination_edge_index.erase id
      vertices := g.vertices.erase vertex.key }

/-- The neighbours of a vertex that have no other edge, downstream ones first. -/
def orphans (g : GraphInner) (vertex : Nat) : List Nat :=
  (g.neighbors_from vertex).filter (fun n => g.degree n = 1) ++
    (g.neighbors_to vertex).filter (fun n => g.degree n = 1)

def dropped_edges (g : GraphInner) (vertex : Nat) : List Edge :=
  ((g.neighbors_to vertex).filter (fun n => g.degree n ≠ 1)).filterMap (g.edge_between vertex)

def delete_vertex (g : GraphInner) (k : Key) : GraphInner :=
  match g.get_vertex_id k with
  | none => g
  | some vertex =>
    (g.dropped_edges vertex).foldl remove_edge_from_destination_index
      ((g.orphans vertex).foldl remove_vertex (g.remove_vertex vertex))

/-! ### The search -/

/-- What the search for a node makes of an edge: one that leads to another node is
    not followed, one that leads to the node ends the search. -/
def arc (g : GraphInner) (node_vertex t n : Nat) : Search.Arc :=
  match (g.edge_between t n).bind (·.destination) with
  | some destination => if destination = node_vertex then .hit else .skip
  | none => .follow

/-- The depth-first walk of `has_path_from`. A vertex is left at most once. -/
def walk (g : GraphInner) (node_vertex starting_vertex : Nat) : Bool :=
  decide (starting_vertex = node_vertex) ||
    Search.walk g.neighbors_from (g.arc node_vertex) node_vertex g.nodes.keys.toFinset.card
      {starting_vertex} [starting_vertex]

/-- What an object is called in the errors of `has_path_from`. -/
def described (starting : Key) : String :=
  starting.vertex_type.name ++ " " ++ starting.ns ++ "/" ++ starting.name

def no_relationship (node_name : String) (starting : Key) : String :=
  "node '" ++ node_name ++ "' cannot get " ++ described starting ++
    ", no relationship to this object was found in the node authorizer graph"

def node_key (node_name : String) : Key := ⟨.Node, "", node_name⟩

def has_path_from (g : GraphInner) (node_name : String) (starting : Key) : Except String Bool :=
  match g.get_vertex_id (node_key node_name), g.get_vertex_id starting with
  | none, _ => .error ("unknown node '" ++ node_name ++ "' cannot get " ++ described starting)
  | some _, none =>
    .error ("node '" ++ node_name ++ "' cannot get unknown " ++ described starting)
  | some node_vertex, some starting_vertex =>
    let searched :=
      if g.walk node_vertex starting_vertex then .ok true
      else .error (no_relationship node_name starting)
    match g.destination_edge_index.lookup starting_vertex with
    | some index =>
      if index.has node_vertex then .ok true
      else if starting.vertex_type.has_authoritative_index then
        .error (no_relationship node_name starting)
      else searched
    | none => searched

end GraphInner

end NodeGraph
