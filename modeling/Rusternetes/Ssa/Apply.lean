import Rusternetes.Ssa.Merge
import Rusternetes.ManagedFields.Entry

/-! # Server-Side Apply by Leaf Schema

    `apply_via_schema`: a manager sends the configuration it wants, the leaves it
    names are merged into the current object, leaves it no longer names are given
    up, and `metadata.managedFields` is rewritten. The resource type is only seen
    through its JSON form.
-/

namespace Ssa

open Framework
open ManagedFields (Serde ManagedFieldsEntry)

structure Resource (T : Type) where
  to_value : T → Except String Json
  from_value : Json → Except String T

structure ApplyOptions where
  field_manager : String
  force : Bool

inductive ApplyOutcome (T : Type) where
  | applied (object : T)
  | conflicts (conflicts : List PathConflict)
  deriving DecidableEq

inductive ApplyError where
  | invalidBody (kind message : String)
  | internal (message : String)
  deriving DecidableEq

/-- Name the step that failed. -/
def internal {α : Type} (step : String) : Except String α → Except ApplyError α :=
  Except.mapError fun e => .internal (step ++ ": " ++ e)

/-! ### Managed fields of the object -/

/-- Several entries, or none when one of them is malformed. -/
def decode_entries (serde : Serde) : Json → List ManagedFieldsEntry
  | .array items => (items.mapM (ManagedFieldsEntry.from_value serde)).getD []
  | _ => []

def extract_managed_fields (serde : Serde) (resource : Json) : List ManagedFieldsEntry :=
  match (resource.get "metadata").bind fun metadata => metadata.get "managedFields" with
  | some raw => decode_entries serde raw
  | none => []

def set_managed_fields (serde : Serde) (resource : Json) (entries : List ManagedFieldsEntry) :
    Json :=
  match resource with
  | .object obj =>
    -- missing metadata is made even when it stays empty
    let metadata := (obj.lookup "metadata").getD (.object [])
    let metadata' := match metadata with
      | .object fields =>
        if entries.isEmpty then .object (Json.remove_field fields "managedFields")
        else .object (Json.insert_field fields "managedFields"
          (.array (entries.map (ManagedFieldsEntry.to_value serde))))
      | other => other
    .object (Json.insert_field obj "metadata" metadata')
  | _ => resource

def entry_paths (entry : ManagedFieldsEntry) : OwnedPaths :=
  (entry.fields_v1.map OwnedPaths.from_fields_v1).getD {}

def entry_manager (entry : ManagedFieldsEntry) : String := entry.manager.getD ""

def applied_entry (entry : ManagedFieldsEntry) (manager : String) (now : Int) (fields_v1 : Json) :
    ManagedFieldsEntry :=
  { entry with
    manager := some manager
    operation := some "Apply"
    api_version := some "v1"
    time := some now
    fields_type := some "FieldsV1"
    fields_v1 := some fields_v1 }

def new_entry (manager : String) (now : Int) (paths : OwnedPaths) : ManagedFieldsEntry :=
  applied_entry ⟨none, none, none, none, none, none, none⟩ manager now paths.to_fields_v1

/-- One entry after an apply, `none` when it owns nothing any more. -/
def rewrite_entry (applying_manager : String) (now : Int)
    (newly_claimed released previously_owned_by_applier : OwnedPaths) (force : Bool)
    (entry : ManagedFieldsEntry) : Option ManagedFieldsEntry :=
  if entry_manager entry = applying_manager then
    let kept := previously_owned_by_applier.paths.filter fun p => !released.contains p
    let paths := (({} : OwnedPaths).insert_all kept).insert_all newly_claimed.paths
    if paths.is_empty then none
    else some (applied_entry entry applying_manager now paths.to_fields_v1)
  else
    let paths : OwnedPaths :=
      if force then ⟨(entry_paths entry).paths.filter fun p => !newly_claimed.contains p⟩
      else entry_paths entry
    if paths.is_empty then none else some { entry with fields_v1 := some paths.to_fields_v1 }

def rewrite_managed_fields (existing : List ManagedFieldsEntry) (applying_manager : String)
    (now : Int) (newly_claimed released previously_owned_by_applier : OwnedPaths)
    (force : Bool) : List ManagedFieldsEntry :=
  let applier_seen := existing.any fun entry => entry_manager entry = applying_manager
  let out := existing.filterMap
    (rewrite_entry applying_manager now newly_claimed released previously_owned_by_applier force)
  if !applier_seen && !newly_claimed.is_empty then
    out ++ [new_entry applying_manager now newly_claimed]
  else out

/-! ### Scalar leaves -/

structure AtomicMergeOutcome where
  /-- `some (some v)` sets the leaf, `some none` takes it out. -/
  new_value : Option (Option Json) := none
  claimed : OwnedPaths := {}
  released : OwnedPaths := {}
  conflicts : List PathConflict := []

def merge_atomic_leaf (leaf : String) (current_value desired_value : Option Json)
    (applying_manager : String) (other_owners : Owners) (previously_owned_by_applier : OwnedPaths)
    (force : Bool) : AtomicMergeOutcome :=
  match desired_value with
  | some dv =>
    let take : AtomicMergeOutcome :=
      { new_value := some (some dv), claimed := OwnedPaths.insert {} leaf }
    match other_owners.lookup leaf with
    | some owner =>
      if current_value ≠ some dv then
        let conflicts := [⟨leaf, owner, applying_manager⟩]
        if force then { take with conflicts } else { conflicts }
      else take
    | none => take
  | none =>
    if previously_owned_by_applier.contains leaf && !(other_owners.lookup leaf).isSome then
      { new_value := some none, released := OwnedPaths.insert {} leaf }
    else {}

/-! ### Apply -/

def config_leaves (schema : ResourceLeafSchema) (desired : Json) : OwnedPaths :=
  let keys := schema.string_map_groups.flatMap fun group =>
    (group.extract_map desired).map fun field => group.pointer field.1
  let atomics := schema.atomic_leaves.filter fun leaf => (desired.get leaf).isSome
  (({} : OwnedPaths).insert_all keys).insert_all atomics

def ensure_apiversion_kind (schema : ResourceLeafSchema) (obj : Map) : Map :=
  let set (obj : Map) (key value : String) : Map :=
    if (obj.lookup key).isSome then obj else Json.insert_field obj key (.string value)
  set (set obj "apiVersion" "v1") "kind" schema.kind

def strip_managed_fields (obj : Map) : Map :=
  match obj.lookup "metadata" with
  | some (.object metadata) =>
    Json.insert_field obj "metadata" (.object (Json.remove_field metadata "managedFields"))
  | _ => obj

section

variable {T : Type} (serde : Serde) (resource : Resource T) (schema : ResourceLeafSchema)

/-- Creation by apply: the applier owns every leaf it names. -/
def finalise_initial_apply (working desired : Json) (opts : ApplyOptions) (now : Int) :
    Except ApplyError (ApplyOutcome T) := do
  let claimed := config_leaves schema desired
  let working := set_managed_fields serde working [new_entry opts.field_manager now claimed]
  let object ← internal ("decode applied " ++ schema.kind) (resource.from_value working)
  return .applied object

/-- The owners besides the applier, the first entry that names a path counts; and the
    paths of the applier. -/
def index_owners (field_manager : String) (entries : List ManagedFieldsEntry) :
    Owners × OwnedPaths :=
  entries.foldl (fun acc entry =>
    let manager := entry_manager entry
    let paths := (entry_paths entry).paths
    if manager = field_manager then (acc.1, acc.2.insert_all paths)
    else
      let record (owners : Owners) (p : String) : Owners :=
        if (owners.lookup p).isSome then owners else Assoc.set owners p manager
      (paths.foldl record acc.1, acc.2)) ([], {})

/-- What the merge of all the leaves comes to. -/
structure Merged where
  new_maps : List (LeafGroup × Map)
  atomic_overrides : List (String × Option Json)
  claimed : OwnedPaths
  released : OwnedPaths
  conflicts : List PathConflict

def merge_leaves (working desired : Json) (opts : ApplyOptions) (other_owners : Owners)
    (previously_owned_by_applier : OwnedPaths) : Merged :=
  let groups := schema.string_map_groups.map fun group =>
    (group, merge_string_map_group group (group.extract_map working) (group.extract_map desired)
      opts.field_manager other_owners previously_owned_by_applier opts.force)
  let atomics := schema.atomic_leaves.map fun leaf =>
    (leaf, merge_atomic_leaf leaf (working.get leaf) (desired.get leaf) opts.field_manager
      other_owners previously_owned_by_applier opts.force)
  { new_maps := groups.map fun g => (g.1, g.2.1)
    atomic_overrides := atomics.filterMap fun a => a.2.new_value.map fun v => (a.1, v)
    claimed := ({} : OwnedPaths).insert_all
      (groups.flatMap (fun g => g.2.2.claimed.paths) ++ atomics.flatMap fun a => a.2.claimed.paths)
    released := ({} : OwnedPaths).insert_all
      (groups.flatMap (fun g => g.2.2.released.paths) ++
        atomics.flatMap fun a => a.2.released.paths)
    conflicts := groups.flatMap (fun g => g.2.2.conflicts) ++ atomics.flatMap fun a => a.2.conflicts }

def override_atomic (working : Json) (override : String × Option Json) : Json :=
  match working, override.2 with
  | .object obj, some v => .object (Json.insert_field obj override.1 v)
  | .object obj, none => .object (Json.remove_field obj override.1)
  | _, _ => working

def commit_leaves (working : Json) (merged : Merged) : Json :=
  merged.atomic_overrides.foldl override_atomic
    (merged.new_maps.foldl (fun w m => m.1.set_map w m.2) working)

def apply_via_schema (current : Option T) (desired : Json) (opts : ApplyOptions) (now : Int) :
    Except ApplyError (ApplyOutcome T) :=
  match desired with
  | .object desired_obj =>
    if desired_obj.isEmpty then
      .error (.invalidBody schema.kind "apply body must not be empty")
    else
      match current with
      | none =>
        let obj := strip_managed_fields (ensure_apiversion_kind schema desired_obj)
        finalise_initial_apply serde resource schema (.object obj) desired opts now
      | some c => do
        let working ← internal "encode current" (resource.to_value c)
        let existing_entries := extract_managed_fields serde working
        let (other_owners, previously_owned_by_applier) :=
          index_owners opts.field_manager existing_entries
        let merged := merge_leaves schema working desired opts other_owners
          previously_owned_by_applier
        if !merged.conflicts.isEmpty && !opts.force then
          return .conflicts merged.conflicts
        let updated_entries := rewrite_managed_fields existing_entries opts.field_manager now
          merged.claimed merged.released previously_owned_by_applier opts.force
        let working := set_managed_fields serde (commit_leaves working merged) updated_entries
        let object ← internal ("decode merged " ++ schema.kind) (resource.from_value working)
        return .applied object
  | _ => .error (.invalidBody schema.kind "expected a JSON object")

end

end Ssa
