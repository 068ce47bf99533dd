import Rusternetes.Framework.Json
import Rusternetes.Framework.Text

/-! # Merging String Maps

    Server-side apply of ConfigMaps and Secrets knows the object by its leaves: the
    keys of a few string maps, and a few scalar fields. A leaf is named by its
    pointer (`data/key`, `metadata/labels/app`, `type`), and a manager owns a set of
    pointers. In the object the set is kept as the nested `fieldsV1` form.
-/

namespace Ssa

open Framework

/-- The members of a JSON object. -/
abbrev Map := List (String × Json)

/-! ### Owned paths -/

/-- The pointers one manager owns, in increasing order. -/
structure OwnedPaths where
  paths : List String := []
  deriving DecidableEq

namespace OwnedPaths

def contains (s : OwnedPaths) (path : String) : Bool := s.paths.contains path

def insert (s : OwnedPaths) (path : String) : OwnedPaths :=
  if s.contains path then s else ⟨s.paths.orderedInsert (· ≤ ·) path⟩

def insert_all (s : OwnedPaths) (paths : List String) : OwnedPaths := paths.foldl insert s

def is_empty (s : OwnedPaths) : Bool := s.paths.isEmpty

instance : Membership String OwnedPaths := ⟨fun s p => p ∈ s.paths⟩

instance (p : String) (s : OwnedPaths) : Decidable (p ∈ s) :=
  inferInstanceAs (Decidable (p ∈ s.paths))

end OwnedPaths

def MAP_GROUP_PREFIXES : List String :=
  ["metadata/labels", "metadata/annotations", "binaryData", "stringData", "data"]

/-- The steps of a pointer. The key of a string map is one step, whatever it holds. -/
def split_pointer_segments (path : String) : List String :=
  let keyed := MAP_GROUP_PREFIXES.findSome? fun pre =>
    match (Text.strip_prefix path pre).bind fun rest => Text.strip_prefix rest "/" with
    | some key => if key.isEmpty then none else some (Text.split pre '/' ++ [key])
    | none => none
  keyed.getD (Text.split path '/')

/-- Make room for a pointer in the nested form; a leaf is an empty object. -/
def insert_segment (node : Map) : List String → Map
  | [] => node
  | [segment] => Json.insert_field node ("f:" ++ segment) (.object [])
  | segment :: next :: rest =>
    let key := "f:" ++ segment
    match (node.lookup key).getD (.object []) with
    | .object child => Json.insert_field node key (.object (insert_segment child (next :: rest)))
    -- a leaf that is extended becomes an object again
    | _ => Json.insert_field node key (.object (insert_segment [] (next :: rest)))

def OwnedPaths.to_fields_v1 (s : OwnedPaths) : Json :=
  .object (s.paths.foldl (fun root path => insert_segment root (split_pointer_segments path)) [])

/-- The pointer of a stack of steps. -/
def join (stack : List String) : String := "/".intercalate stack

mutual

/-- The loop over the members of a node: only field names are followed. -/
def collect_fields (stack : List String) : Map → OwnedPaths → OwnedPaths
  | [], out => out
  | (key, child) :: rest, out =>
    match Text.strip_prefix key "f:" with
    | none => collect_fields stack rest out
    | some field => collect_fields stack rest (collect_child (stack ++ [field]) child out)

def collect_child (stack : List String) : Json → OwnedPaths → OwnedPaths
  | .object node, out =>
    if node.isEmpty then out.insert (join stack) else collect_fields stack node out
  -- what is not an object is a leaf
  | .null, out | .bool _, out | .number _, out | .string _, out | .array _, out =>
    out.insert (join stack)

end

/-- Every leaf of the nested form. -/
def collect_paths (node : Map) (stack : List String) (out : OwnedPaths) : OwnedPaths :=
  if node.isEmpty && !stack.isEmpty then out.insert (join stack) else collect_fields stack node out

def OwnedPaths.from_fields_v1 : Json → OwnedPaths
  | .object node => collect_paths node [] {}
  | _ => {}

/-! ### Leaf groups and schemas -/

/-- The string maps that are merged key by key. -/
inductive LeafGroup where
  | data
  | binaryData
  | stringData
  | labels
  | annotations
  deriving DecidableEq

namespace LeafGroup

def pointer_prefix : LeafGroup → String
  | data => "data"
  | binaryData => "binaryData"
  | stringData => "stringData"
  | labels => "metadata/labels"
  | annotations => "metadata/annotations"

def path : LeafGroup → List String
  | data => ["data"]
  | binaryData => ["binaryData"]
  | stringData => ["stringData"]
  | labels => ["metadata", "labels"]
  | annotations => ["metadata", "annotations"]

def pointer (group : LeafGroup) (key : String) : String := group.pointer_prefix ++ "/" ++ key

/-- Follow object keys. -/
def walk (cursor : Json) : List String → Option Json
  | [] => some cursor
  | segment :: rest => (cursor.get segment).bind fun next => walk next rest

def extract_map (group : LeafGroup) (resource : Json) : Map :=
  match walk resource group.path with
  | some (.object map) => map
  | _ => []

/-- Set the map at a path, or take it out when it is empty. What is missing on the way
    is made; a value on the way that is no object stops it. -/
def set_at (root : Map) (map : Map) : List String → Map
  | [] => root
  | [leaf_key] =>
    if map.isEmpty then Json.remove_field root leaf_key
    else Json.insert_field root leaf_key (.object map)
  | segment :: next :: rest =>
    match (root.lookup segment).getD (.object []) with
    | .object child => Json.insert_field root segment (.object (set_at child map (next :: rest)))
    | _ => root

def set_map (group : LeafGroup) (resource : Json) (map : Map) : Json :=
  match resource with
  | .object root => .object (set_at root map group.path)
  | _ => resource

end LeafGroup

/-- What an apply may touch on one kind. -/
structure ResourceLeafSchema where
  kind : String
  string_map_groups : List LeafGroup
  atomic_leaves : List String

def CONFIGMAP_SCHEMA : ResourceLeafSchema where
  kind := "ConfigMap"
  string_map_groups := [.data, .binaryData, .labels, .annotations]
  atomic_leaves := []

def SECRET_SCHEMA : ResourceLeafSchema where
  kind := "Secret"
  string_map_groups := [.data, .stringData, .labels, .annotations]
  atomic_leaves := ["type"]

/-! ### Merging -/

structure PathConflict where
  path : String
  current_manager : String
  applying_manager : String
  deriving DecidableEq

structure GroupMergeOutcome where
  claimed : OwnedPaths := {}
  released : OwnedPaths := {}
  conflicts : List PathConflict := []

/-- Who, besides the applier, owns a pointer. -/
abbrev Owners := List (String × String)

section

variable (group : LeafGroup) (current_map desired_map : Map) (applying_manager : String)
  (other_owners : Owners) (previously_owned_by_applier : OwnedPaths) (force : Bool)

def claim_key (acc : Map × GroupMergeOutcome) (field : String × Json) : Map × GroupMergeOutcome :=
  let path := group.pointer field.1
  let (merged, outcome) := acc
  let take : Map × GroupMergeOutcome :=
    (Json.insert_field merged field.1 field.2, { outcome with claimed := outcome.claimed.insert path })
  match other_owners.lookup path with
  | some owner =>
    if current_map.lookup field.1 ≠ some field.2 then
      let conflicts := outcome.conflicts ++ [⟨path, owner, applying_manager⟩]
      if force then (take.1, { take.2 with conflicts }) else (merged, { outcome with conflicts })
    else take
  | none => take

/-- One key of the current map: it goes when the desired map leaves it out and nobody
    else owns it. -/
def release_key (acc : Map × GroupMergeOutcome) (key : String) : Map × GroupMergeOutcome :=
  let path := group.pointer key
  let (merged, outcome) := acc
  if (desired_map.lookup key).isSome then acc
  else if previously_owned_by_applier.contains path && !(other_owners.lookup path).isSome then
    (Json.remove_field merged key, { outcome with released := outcome.released.insert path })
  else acc

def merge_string_map_group : Map × GroupMergeOutcome :=
  let claims := desired_map.foldl
    (claim_key group current_map applying_manager other_owners force) (current_map, {})
  (current_map.map Prod.fst).foldl
    (release_key group desired_map other_owners previously_owned_by_applier) claims

end

end Ssa
