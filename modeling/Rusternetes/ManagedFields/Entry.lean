import Rusternetes.Framework.Json

/-! # Entries of the Managed Fields

    Who owns which fields of an object is kept in the object itself, under
    `metadata.managedFields`: one entry per manager, with the manager's fields in the
    nested `FieldsV1` form. Here is an entry, and how it is read and written.
-/

namespace ManagedFields

open Framework

/-- The text forms of JSON values, and of times in seconds. What is written is read
    back. -/
structure Serde where
  to_string : Json → String
  from_str : String → Option Json
  from_to_string : ∀ v, from_str (to_string v) = some v
  format_time : Int → String
  parse_time : String → Option Int
  parse_format_time : ∀ t, parse_time (format_time t) = some t

/-- One entry of the record, as the object carries it. -/
structure ManagedFieldsEntry where
  manager : Option String
  operation : Option String
  api_version : Option String
  time : Option Int
  fields_type : Option String
  fields_v1 : Option Json
  subresource : Option String

namespace ManagedFieldsEntry

/-- The entry as a value; what is not there is left out. -/
def to_value (serde : Serde) (e : ManagedFieldsEntry) : Json :=
  .object <|
    [("apiVersion", e.api_version.map Json.string), ("fieldsType", e.fields_type.map Json.string),
      ("fieldsV1", e.fields_v1), ("manager", e.manager.map Json.string),
      ("operation", e.operation.map Json.string), ("subresource", e.subresource.map Json.string),
      ("time", e.time.map fun t => Json.string (serde.format_time t))].filterMap
      fun f => f.2.map fun v => (f.1, v)

/-- A text that may be missing or `null`. -/
def optional_string : Option Json → Option (Option String)
  | none | some .null => some none
  | some (.string s) => some (some s)
  | some _ => none

def optional_time (serde : Serde) (v : Option Json) : Option (Option Int) :=
  (optional_string v).bind fun
    | none => some none
    | some s => (serde.parse_time s).map some

def from_value (serde : Serde) : Json → Option ManagedFieldsEntry
  | .object fields => do
    let api_version ← optional_string (fields.lookup "apiVersion")
    let fields_type ← optional_string (fields.lookup "fieldsType")
    let manager ← optional_string (fields.lookup "manager")
    let operation ← optional_string (fields.lookup "operation")
    let subresource ← optional_string (fields.lookup "subresource")
    let time ← optional_time serde (fields.lookup "time")
    let fields_v1 := (fields.lookup "fieldsV1").filter fun v => !v.is_null
    return { manager, operation, api_version, time, fields_type, fields_v1, subresource }
  | _ => none

end ManagedFieldsEntry

end ManagedFields
