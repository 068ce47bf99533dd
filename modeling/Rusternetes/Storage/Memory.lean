import Rusternetes.Common.Error
import Rusternetes.Framework.Json
import Rusternetes.Framework.Journal
import Rusternetes.Framework.Text

/-! # The In-Memory Storage

    `MemoryStorage`: a map from keys to objects, a revision counter, and a bounded
    history from which watches are replayed and earlier states are rebuilt.

    A write takes its sections one after the other: a check under the read lock, the
    drawing of a revision, the section under the write lock of the data, the section
    under the lock of the history. `Call` says where a write stands and `Call.step`
    is its next section; `complete` runs a write through. Objects are kept as the
    values their texts decode to.
-/

open Framework Common

namespace Storage

/-! ### Objects -/

/-- Rewrite the members of the metadata, if the object has such an object. -/
def map_metadata (value : Json) (f : List (String × Json) → List (String × Json)) : Json :=
  match value with
  | .object fields =>
    match fields.lookup "metadata" with
    | some (.object metadata) => .object (Json.insert_field fields "metadata" (.object (f metadata)))
    | _ => value
  | _ => value

def extract_resource_version (value : Json) : Option String :=
  (((value.get "metadata").getD .null).get "resourceVersion").bind Json.as_str |>.filter (· ≠ "")

def mod_revision_to_resource_version (revision : Nat) : String := toString revision

def stamp (revision : Nat) (value : Json) : Json :=
  map_metadata value fun metadata =>
    Json.insert_field metadata "resourceVersion" (.string (mod_revision_to_resource_version revision))

/-- The object has metadata for a version to be put in. -/
def carries_metadata (value : Json) : Bool :=
  match value.get "metadata" with
  | some (.object _) => true
  | _ => false

theorem extract_stamp (revision : Nat) (value : Json) :
    extract_resource_version (stamp revision value) =
      if carries_metadata value then some (mod_revision_to_resource_version revision) else none := by
  unfold stamp map_metadata carries_metadata
  cases value with
  | object fields =>
    cases hmeta : fields.lookup "metadata" with
    | none => simp [Json.get, hmeta, extract_resource_version]
    | some m =>
      cases m with
      | object =>
        have hne : mod_revision_to_resource_version revision ≠ "" := Text.toString_ne_empty revision
        simp [Json.get, hmeta, extract_resource_version, Json.lookup_insert_field, Json.as_str, hne]
      | _ => simp [Json.get, hmeta, extract_resource_version]
  | _ => simp [Json.get, extract_resource_version]

/-- What a create fills in: a uid and a creation timestamp, where there is none. -/
def fill_metadata (value : Json) (uid now : String) : Json :=
  map_metadata value fun metadata =>
    let metadata :=
      match metadata.lookup "uid" with
      | some (.string s) => if s ≠ "" then metadata else Json.insert_field metadata "uid" (.string uid)
      | _ => Json.insert_field metadata "uid" (.string uid)
    match metadata.lookup "creationTimestamp" with
    | none => Json.insert_field metadata "creationTimestamp" (.string now)
    | some .null => Json.insert_field metadata "creationTimestamp" (.string now)
    | some _ => metadata

structure Preconditions where
  uid : Option String
  resource_version : Option String

/-- A text member of the metadata, empty if there is none. -/
def metadata_str (value : Json) (field : String) : String :=
  ((((value.get "metadata").bind fun m => m.get field).bind Json.as_str)).getD ""

def Preconditions.check (pre : Preconditions) (obj : Json) : Except Error Unit := do
  match pre.uid with
  | some uid =>
    if uid ≠ metadata_str obj "uid" then
      throw (.Conflict ("Precondition failed: UID in precondition: " ++ uid ++
        ", UID in object meta: " ++ metadata_str obj "uid"))
  | none => pure ()
  match pre.resource_version with
  | some rv =>
    if rv ≠ metadata_str obj "resourceVersion" then
      throw (.Conflict ("Precondition failed: ResourceVersion in precondition: " ++ rv ++
        ", ResourceVersion in object meta: " ++ metadata_str obj "resourceVersion"))
  | none => pure ()

/-! ### State -/

inductive WatchEvent where
  | Added (key : String) (value : Json)
  | Modified (key : String) (value : Json)
  | Deleted (key : String) (value : Json)
  deriving DecidableEq

def WatchEvent.key : WatchEvent → String
  | .Added key _ | .Modified key _ | .Deleted key _ => key

def WatchEvent.value : WatchEvent → Option Json
  | .Added _ value | .Modified _ value => some value
  | .Deleted _ _ => none

/-- `History`, its lists oldest first. -/
structure History where
  events : List (Nat × WatchEvent)
  capacity : Nat
  evicted_floor : Nat
  /-- For each event the value its key held before. -/
  undo : List (Write String Json)

structure MemoryStorage where
  history : History
  data : Table String Json
  /-- Everything that was ever sent on the bus, oldest first, with the revision it
      was recorded under. -/
  bus : List (Nat × WatchEvent)
  conflict_update_count : Nat
  compacted_revision : Int
  revision : Nat

namespace MemoryStorage

def with_history_capacity (capacity : Nat) : MemoryStorage where
  history := { events := [], capacity := max capacity 1, evicted_floor := 0, undo := [] }
  data := ∅
  bus := []
  conflict_update_count := 0
  compacted_revision := 0
  revision := 1

def compact_to (s : MemoryStorage) (revision : Int) : MemoryStorage :=
  { s with compacted_revision := revision }

def inject_conflicts (s : MemoryStorage) (n : Nat) : MemoryStorage :=
  { s with conflict_update_count := n }

end MemoryStorage

/-- Make room for one more event. -/
def History.evict (h : History) : History :=
  match h.events with
  | [] => { h with undo := h.undo.drop 1 }
  | (rev, _) :: events =>
    { h with events, evicted_floor := max h.evicted_floor rev, undo := h.undo.drop 1 }

/-- The part of `emit` that is about the history. -/
def History.push (h : History) (revision : Nat) (event : WatchEvent) (previous : Option Json) :
    History :=
  let h := if h.capacity ≤ h.events.length then h.evict else h
  { h with
    undo := h.undo ++ [⟨revision, event.key, previous⟩]
    events := h.events ++ [(revision, event)] }

/-- `emit`: record the event and send it to the watchers, under one lock. -/
def MemoryStorage.emit (s : MemoryStorage) (revision : Nat) (event : WatchEvent)
    (previous : Option Json) : MemoryStorage :=
  { s with history := s.history.push revision event previous, bus := s.bus ++ [(revision, event)] }

/-! ### Writes -/

/-- The writing calls, with the uid and the time a create would fill in. -/
inductive Request where
  | create (key : String) (value : Json) (uid now : String)
  | update (key : String) (value : Json)
  | update_raw (key : String) (value : Json)
  | delete (key : String) (preconditions : Option Preconditions)

def Request.key : Request → String
  | .create key _ _ _ | .update key _ | .update_raw key _ | .delete key _ => key

inductive Call where
  /-- It has just been made. -/
  | entered (req : Request)
  /-- A create has found the key free; next is the revision. -/
  | creating (key : String) (value : Json)
  /-- An `update_raw` has found the key; next is the revision. -/
  | replacing (key : String) (value : Json)
  /-- An update is about to take the data lock. -/
  | updating (key : String) (value : Json)
  /-- The revision is drawn; the create is about to take the data lock. -/
  | inserting (key : String) (value : Json) (revision : Nat)
  /-- The revision is drawn; the `update_raw` is about to take the data lock. -/
  | overwriting (key : String) (value : Json) (revision : Nat)
  /-- The data is written; next is the event. -/
  | emitting (revision : Nat) (event : WatchEvent) (previous : Option Json) (answer : Option Json)
  | returned (answer : Except Error (Option Json))

open MemoryStorage

/-- Under the data lock: write the key and hand over to `emit`. -/
def commit (s : MemoryStorage) (revision : Nat) (event : WatchEvent) (answer : Option Json) :
    MemoryStorage × Call :=
  ({ s with data := s.data.set event.key event.value },
    .emitting revision event (s.data.lookup event.key) answer)

def delete_inner (s : MemoryStorage) (key : String) (preconditions : Option Preconditions) :
    MemoryStorage × Call :=
  match s.data.lookup key with
  | none => (s, .returned (.error (.NotFound key)))
  | some current =>
    match preconditions.elim (.ok ()) (fun pre => pre.check current) with
    | .error e => (s, .returned (.error e))
    | .ok () =>
      -- the event carries the object under the revision of the delete
      commit { s with revision := s.revision + 1 } (s.revision + 1)
        (.Deleted key (stamp (s.revision + 1) current)) none

/-- `update_with_ttl`, under the data lock. -/
def update_inner (s : MemoryStorage) (key : String) (value : Json) : MemoryStorage × Call :=
  match s.data.lookup key with
  | none => (s, .returned (.error (.NotFound key)))
  | some stored =>
    match extract_resource_version value, extract_resource_version stored with
    | some incoming_rv, some stored_rv =>
      if stored_rv ≠ incoming_rv then
        (s, .returned (.error (.Conflict
          ("resourceVersion mismatch: resource was modified (expected: " ++ incoming_rv ++
            ", current: " ++ stored_rv ++ ")"))))
      else write
    | _, _ => write
where
  write : MemoryStorage × Call :=
    commit { s with revision := s.revision + 1 } (s.revision + 1)
      (.Modified key (stamp (s.revision + 1) value)) (some (stamp (s.revision + 1) value))

def Call.step (s : MemoryStorage) : Call → MemoryStorage × Call
  | .entered (.create key value uid now) =>
    -- a rejected create is not to consume a revision
    if (s.data.lookup key).isSome then (s, .returned (.error (.AlreadyExists key)))
    else (s, .creating key (fill_metadata value uid now))
  | .entered (.update key value) =>
    if 0 < s.conflict_update_count then
      ({ s with conflict_update_count := s.conflict_update_count - 1 },
        .returned (.error (.Conflict "injected conflict for test")))
    else (s, .updating key value)
  | .entered (.update_raw key value) =>
    if (s.data.lookup key).isNone then (s, .returned (.error (.NotFound key)))
    else (s, .replacing key value)
  | .entered (.delete key preconditions) => delete_inner s key preconditions
  | .creating key value =>
    ({ s with revision := s.revision + 1 },
      .inserting key (stamp (s.revision + 1) value) (s.revision + 1))
  | .replacing key value =>
    ({ s with revision := s.revision + 1 },
      .overwriting key (stamp (s.revision + 1) value) (s.revision + 1))
  | .updating key value => update_inner s key value
  | .inserting key value revision =>
    if (s.data.lookup key).isSome then (s, .returned (.error (.AlreadyExists key)))
    else commit s revision (.Added key value) (some value)
  | .overwriting key value revision =>
    if (s.data.lookup key).isNone then (s, .returned (.error (.NotFound key)))
    else commit s revision (.Modified key value) none
  | .emitting revision event previous answer =>
    (s.emit revision event previous, .returned (.ok answer))
  | .returned answer => (s, .returned answer)

/-- One section of a call that has the storage to itself. -/
def advance (c : MemoryStorage × Call) : MemoryStorage × Call := c.2.step c.1

/-- A call run through, nothing coming between its sections. -/
def complete (s : MemoryStorage) (req : Request) : MemoryStorage × Call :=
  advance^[4] (s, .entered req)

/-- The section of a delete fails and changes nothing, or takes the key away. -/
theorem delete_inner_cases (s : MemoryStorage) (key : String)
    (preconditions : Option Preconditions) :
    (∃ e, delete_inner s key preconditions = (s, .returned (.error e))) ∨
    ∃ current, s.data.lookup key = some current ∧
      delete_inner s key preconditions =
        commit { s with revision := s.revision + 1 } (s.revision + 1)
          (.Deleted key (stamp (s.revision + 1) current)) none := by
  unfold delete_inner
  split
  · exact .inl ⟨_, rfl⟩
  · next current hcurrent =>
    split
    · exact .inl ⟨_, rfl⟩
    · exact .inr ⟨current, hcurrent, rfl⟩

/-- The section of an update fails and changes nothing, or writes the key, over an object
    whose version is not another than the one that comes in. -/
theorem update_inner_cases (s : MemoryStorage) (key : String) (value : Json) :
    (∃ e, update_inner s key value = (s, .returned (.error e))) ∨
    ∃ stored, s.data.lookup key = some stored ∧
      (∀ incoming_rv stored_rv, extract_resource_version value = some incoming_rv →
        extract_resource_version stored = some stored_rv → stored_rv = incoming_rv) ∧
      update_inner s key value =
        commit { s with revision := s.revision + 1 } (s.revision + 1)
          (.Modified key (stamp (s.revision + 1) value))
          (some (stamp (s.revision + 1) value)) := by
  unfold update_inner
  split
  · exact .inl ⟨_, rfl⟩
  · next stored hstored =>
    split
    · next incoming_rv stored_rv hin hst =>
      split
      · exact .inl ⟨_, rfl⟩
      · next heq =>
        refine .inr ⟨stored, hstored, ?_, rfl⟩
        intro i t hi ht
        cases hin.symm.trans hi
        cases hst.symm.trans ht
        exact not_not.mp heq
    · next hnot =>
      refine .inr ⟨stored, hstored, ?_, rfl⟩
      intro i t hi ht
      exact absurd ht (hnot i t hi)

/-! ### Reads -/

def MemoryStorage.get (s : MemoryStorage) (key : String) : Except Error Json :=
  match s.data.lookup key with
  | some value => .ok value
  | none => .error (.NotFound key)

/-- The entries `list` finds, in key order. -/
def MemoryStorage.matched (s : MemoryStorage) (pre : String) : List (String × Json) :=
  s.data.listing fun key => Text.starts_with key pre

def MemoryStorage.list (s : MemoryStorage) (pre : String) : List Json :=
  (s.matched pre).map Prod.snd

/-- The loop of `list_at_revision`: undo the writes after the revision, newest first. -/
def unwind (pre : String) (revision : Int) :
    List (Write String Json) → Table String Json → Table String Json
  | [], state => state
  | u :: us, state =>
    if (u.revision : Int) ≤ revision ∨ Text.starts_with u.key pre = false then
      unwind pre revision us state
    else unwind pre revision us (state.set u.key u.value)

/-- The entries `list_at_revision` finds, in key order. -/
def MemoryStorage.matched_at_revision (s : MemoryStorage) (pre : String) (revision : Int) :
    Except Error (List (String × Json)) :=
  if revision ≤ 0 ∨ (s.revision : Int) ≤ revision then .ok (s.matched pre)
  else if revision < s.history.evicted_floor ∨
      (0 < s.compacted_revision ∧ revision ≤ s.compacted_revision) then
    .error (.Gone "The resourceVersion for the provided list is too old.")
  else
    let state := s.data.filter fun key => Text.starts_with key pre
    .ok ((unwind pre revision s.history.undo.reverse state).listing fun _ => true)

def MemoryStorage.list_at_revision (s : MemoryStorage) (pre : String) (revision : Int) :
    Except Error (List Json) :=
  (s.matched_at_revision pre revision).map fun entries => entries.map Prod.snd

def MemoryStorage.current_revision (s : MemoryStorage) : Int := s.revision

def MemoryStorage.is_revision_compacted (s : MemoryStorage) (revision : Int) : Bool :=
  decide (0 < s.compacted_revision ∧ revision ≤ s.compacted_revision)

end Storage
