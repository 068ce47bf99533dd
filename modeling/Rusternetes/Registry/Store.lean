import Rusternetes.Framework.Cell
import Rusternetes.Registry.Rest

/-! # The Generic Registry: The Store

    `Store` over one key of a storage: the storage operations, the errors, the
    retry loop of `GuaranteedUpdate` and the callbacks it is given. Each function
    here runs between two storage operations.
-/

open Common Framework

namespace Registry

variable {B : Type}

/-! ### The storage -/

abbrev Storage (B : Type) := Cell (Obj B)

/-- What is stored, with its revision as the resource version. -/
def stamped (x : Versioned (Obj B)) : Obj B := x.value.with_version (some (toString x.revision))

theorem stamped_version (x : Versioned (Obj B)) :
    (stamped x).metadata.resource_version = some (toString x.revision) := rfl

def Storage.get (key : String) (db : Storage B) : Except Error (Obj B) :=
  match db.content with
  | some x => .ok (stamped x)
  | none => .error (.NotFound key)

/-- The object that a write stores and returns. -/
def Storage.written (db : Storage B) (obj : Obj B) : Obj B := stamped ⟨obj, db.last + 1⟩

/-- `Storage::create_with_ttl`. A resource version of the object is overwritten. -/
def Storage.create (key : String) (db : Storage B) (obj : Obj B) :
    Except Error (Obj B) × Storage B :=
  match db.content with
  | some _ => (.error (.AlreadyExists key), db)
  | none => (.ok (db.written obj), db.put obj)

/-- `Storage::update_with_ttl`: a compare-and-swap when the object names a resource
    version. -/
def Storage.update (key : String) (db : Storage B) (obj : Obj B) :
    Except Error (Obj B) × Storage B :=
  match db.content with
  | none => (.error (.NotFound key), db)
  | some x =>
    match obj.metadata.resource_version.filter (· ≠ "") with
    | some incoming =>
      if incoming = toString x.revision then (.ok (db.written obj), db.put obj)
      else
        (.error (.Conflict ("resourceVersion mismatch: resource was modified (expected: " ++
          incoming ++ ", current: " ++ toString x.revision ++ ")")), db)
    | none => (.ok (db.written obj), db.put obj)

def Storage.delete (key : String) (db : Storage B) : Except Error Unit × Storage B :=
  match db.content with
  | none => (.error (.NotFound key), db)
  | some _ => (.ok (), db.clear)

theorem Storage.create_cases (key : String) (db : Storage B) (obj : Obj B) :
    (∃ e, Storage.create key db obj = (.error e, db)) ∨
      db.content = none ∧ Storage.create key db obj = (.ok (db.written obj), db.put obj) := by
  unfold Storage.create
  cases hc : db.content with
  | some x => exact .inl ⟨_, rfl⟩
  | none => exact .inr ⟨rfl, rfl⟩

/-- A write of an object that names a version finds nothing, or another version, or
    replaces the object of that version. -/
theorem Storage.update_cases (key : String) (db : Storage B) {obj : Obj B} {n : Nat}
    (hv : obj.metadata.resource_version = some (toString n)) :
    (db.content = none ∧ Storage.update key db obj = (.error (.NotFound key), db)) ∨
      (∃ x msg, db.content = some x ∧ x.revision ≠ n ∧
        Storage.update key db obj = (.error (.Conflict msg), db)) ∨
      ∃ x, db.content = some x ∧ x.revision = n ∧
        Storage.update key db obj = (.ok (db.written obj), db.put obj) := by
  have hfilter : obj.metadata.resource_version.filter (· ≠ "") = some (toString n) := by
    rw [hv]
    simp [Option.filter]
  unfold Storage.update
  cases hc : db.content with
  | none => exact .inl ⟨rfl, rfl⟩
  | some x =>
    right
    by_cases heq : (toString n : String) = toString x.revision
    · refine .inr ⟨x, rfl, (Text.toString_inj heq).symm, ?_⟩
      simp only [hfilter, if_pos heq]
    · simp only [hfilter, if_neg heq]
      exact .inl ⟨x, _, rfl, fun h => heq (by rw [h]), rfl⟩

/-! ### The store -/

structure Store (B : Type) where
  key : String
  qualified_resource : GroupResource
  namespace_scoped : Bool
  allow_create_on_update : Bool
  allow_unconditional_update : Bool
  enable_garbage_collection : Bool
  return_deleted_object : Bool
  should_delete_during_update : Option (Obj B → Obj B → Bool)
  /-- The decoder of the storage, which defaults the body of an object. -/
  decode : Obj B → Obj B
  decode_metadata : ∀ o, (decode o).metadata = o.metadata
  ttl_func : Option (Obj B → Nat → Bool → Except Error Nat)
  /-- The kind an object serializes with. -/
  kind : Obj B → Option String
  validate_delete_options : DeleteOptions → List String
  /-- How a string is printed for debugging. -/
  debug : String → String

namespace Store

variable (store : Store B)

theorem decode_version (x : Versioned (Obj B)) :
    (store.decode (stamped x)).metadata.resource_version = some (toString x.revision) := by
  rw [store.decode_metadata, stamped_version]

def calculate_ttl (obj : Obj B) (default_ttl : Nat) (update : Bool) : Except Error Nat :=
  match store.ttl_func with
  | some ttl_func => ttl_func obj default_ttl update
  | none => .ok default_ttl

/-- `is_storage_error`: the message of a storage error is a key. -/
def is_storage_error (msg : String) : Bool := Text.starts_with msg "/registry/"

def interpret_create_error (err : Error) (name : String) : Error :=
  match err with
  | .AlreadyExists msg =>
    if is_storage_error msg then
      .AlreadyExists (store.qualified_resource.to_string ++ " \"" ++ name ++ "\" already exists")
    else err
  | _ => err

def interpret_update_error (err : Error) (name : String) : Error :=
  match err with
  | .NotFound msg => if is_storage_error msg then not_found store.qualified_resource name else err
  | .AlreadyExists msg =>
    if is_storage_error msg then conflict store.qualified_resource name msg else err
  | .Conflict msg =>
    if is_storage_error msg then conflict store.qualified_resource name msg else err
  | _ => err

def interpret_delete_error (err : Error) (name : String) : Error :=
  store.interpret_update_error err name

def storage_error_text (extra : String) : String :=
  "StorageError: invalid object, Code: 4, Key: " ++ store.key ++
    ", ResourceVersion: 0, AdditionalErrorMsg: " ++ extra

end Store

/-- `check_preconditions`: what failed, if anything. A missing object is checked as
    an empty one. -/
def check_preconditions (preconditions : Option Preconditions) (obj : Option (Obj B)) :
    Option String :=
  let m := (obj.map (·.metadata)).getD ObjectMeta.default
  let stored := m.resource_version.getD ""
  match preconditions with
  | none => none
  | some p =>
    if p.uid.any (· ≠ m.uid) then
      some ("Precondition failed: UID in precondition: " ++ p.uid.getD "" ++
        ", UID in object meta: " ++ m.uid)
    else if p.resource_version.any (· ≠ stored) then
      some ("Precondition failed: ResourceVersion in precondition: " ++
        p.resource_version.getD "" ++ ", ResourceVersion in object meta: " ++ stored)
    else none

theorem meets_of_check {preconditions : Option Preconditions} {obj : Obj B}
    (h : check_preconditions preconditions (some obj) = none) :
    Meets preconditions obj.metadata := by
  apply meets_of_any
  rintro p rfl
  simp only [check_preconditions, Option.map_some, Option.getD_some] at h
  split_ifs at h with huid hrv
  exact ⟨by simpa using huid, by simpa using hrv⟩

/-! ### The retry loop -/

inductive Abort (B : Type) where
  | Api (e : Error)
  | EmptiedFinalizers (obj : Obj B)
  | DeleteNow
  | AlreadyDeleting

/-- The arguments of `guaranteed_update`. The callback has a state of its own. -/
structure Guarded (σ B : Type) where
  name : String
  ignore_not_found : Bool
  preconditions : Option Preconditions
  dry_run : Bool
  try_update : Answers B → σ → Option (Obj B) → σ × Except (Abort B) (Obj B)

/-- Where `guaranteed_update` stands: before a read, or before the write of an
    attempt, for which `ans` were the answers. -/
inductive Loop (σ B : Type) where
  | read (st : σ)
  | create (st : σ) (ans : Answers B) (updated : Obj B)
  | write (st : σ) (ans : Answers B) (updated current : Obj B)

/-- What follows a storage operation of `guaranteed_update`. -/
inductive Next (σ B : Type) where
  | again (loop : Loop σ B)
  | out (st : σ) (outcome : Except (Abort B) (Obj B))

section GuaranteedUpdate

variable {σ : Type} [DecidableEq B] (store : Store B) (g : Guarded σ B)

/-- The part of `guaranteed_update` from the object read to the write. -/
def attempt (ans : Answers B) (st : σ) (current : Option (Obj B)) : Next σ B :=
  match check_preconditions g.preconditions current with
  | some failure =>
    .out st (.error (.Api (conflict store.qualified_resource g.name
      (store.storage_error_text failure))))
  | none =>
    match g.try_update ans st current with
    | (st, .error abort) => .out st (.error abort)
    | (st, .ok updated) =>
      if g.dry_run then .out st (.ok updated)
      else
        match current with
        | none =>
          match store.calculate_ttl updated 0 false with
          | .error e => .out st (.error (.Api e))
          | .ok _ => .again (.create st ans updated)
        | some current =>
          -- the write is guarded by the version that was read
          let updated := updated.with_version current.metadata.resource_version
          if updated = current then .out st (.ok current)
          else
            match store.calculate_ttl updated 0 true with
            | .error e => .out st (.error (.Api e))
            | .ok _ => .again (.write st ans updated current)

/-- `guaranteed_update` after its read. -/
def after_read (ans : Answers B) (st : σ) (got : Except Error (Obj B)) : Next σ B :=
  match got with
  | .ok obj => attempt store g ans st (some (store.decode obj))
  | .error (.NotFound _) =>
    if g.ignore_not_found then attempt store g ans st none
    else .out st (.error (.Api (not_found store.qualified_resource g.name)))
  | .error e => .out st (.error (.Api e))

omit [DecidableEq B]

/-- `guaranteed_update` after its create: someone else may have been first. -/
def after_create (st : σ) (got : Except Error (Obj B)) : Next σ B :=
  match got with
  | .ok stored => .out st (.ok (store.decode stored))
  | .error (.AlreadyExists _) => .again (.read st)
  | .error e => .out st (.error (.Api e))

/-- `guaranteed_update` after its write: it is retried on the current object when
    it lost a race. -/
def after_write (st : σ) (got : Except Error (Obj B)) : Next σ B :=
  match got with
  | .ok stored => .out st (.ok (store.decode stored))
  | .error (.Conflict _) => .again (.read st)
  | .error (.NotFound _) => .again (.read st)
  | .error e => .out st (.error (.Api e))

end GuaranteedUpdate

/-! ### The callback of an update -/

/-- The arguments of `Store::update`. -/
structure UpdateArgs where
  name : String
  ns : Option String
  dry_run : Bool
  force_allow_create : Bool
  /-- `UpdatedObjectInfo::preconditions`. -/
  preconditions : Option Preconditions

structure UpdateAttempt (B : Type) where
  creating : Bool
  creating_obj : Option (Obj B)

def optimistic_lock_error_msg : String :=
  "the object has been modified; please apply your changes to the latest version and try again"

def should_delete_during_update (obj existing : Obj B) : Bool :=
  !obj.metadata.has_finalizers && existing.metadata.deletion_timestamp.isSome &&
    (existing.metadata.deletion_grace_period_seconds = none ∨
      existing.metadata.deletion_grace_period_seconds = some 0)

namespace Store

variable (store : Store B) (u : UpdateArgs)

def allow_create : Bool := store.allow_create_on_update || u.force_allow_create

def create_on_update (ans : Answers B) (obj : Obj B) : Except (Abort B) (Obj B) :=
  match before_create ans store.namespace_scoped u.ns obj with
  | .error e => .error (.Api (with_group_kind store.kind store.qualified_resource.group e))
  | .ok obj =>
    match ans.create_validation obj with
    | .error e => .error (.Api e)
    | .ok () => .ok obj

def update_existing (ans : Answers B) (obj existing : Obj B) : Except (Abort B) (Obj B) :=
  match before_update ans store.namespace_scoped u.ns obj existing with
  | .error e => .error (.Api (with_group_kind store.kind store.qualified_resource.group e))
  | .ok obj =>
    match ans.update_validation obj existing with
    | .error e => .error (.Api e)
    | .ok () =>
      if Registry.should_delete_during_update obj existing &&
          store.should_delete_during_update.all fun extra => extra obj existing then
        .error (.EmptiedFinalizers obj)
      else .ok obj

/-- The create part of `UpdateAttempt::try_update`. -/
def try_create (ans : Answers B) (st : UpdateAttempt B) (obj : Obj B) :
    UpdateAttempt B × Except (Abort B) (Obj B) :=
  let obj := { obj with metadata := fill_object_meta_system_fields ans obj.metadata }
  match ans.begin_create with
  | none => (⟨true, some obj⟩, store.create_on_update u ans obj)
  | some begin_create =>
    match begin_create obj with
    | .error e => (st, .error (.Api e))
    | .ok obj => (⟨true, some obj⟩, store.create_on_update u ans obj)

/-- The update part of `UpdateAttempt::try_update`, from the hook on. -/
def try_existing (ans : Answers B) (obj existing : Obj B) : Except (Abort B) (Obj B) :=
  match ans.begin_update with
  | none => store.update_existing u ans obj existing
  | some begin_update =>
    match begin_update obj existing with
    | .error e => .error (.Api e)
    | .ok (obj, existing) => store.update_existing u ans obj existing

/-- The version that an updated object is given: the one it names, which has to be
    the current one, or the current one if it names none. -/
def check_version (obj existing : Obj B) : Except Error (Obj B) := do
  let new_rv ← parse_resource_version store.debug obj.metadata
  if new_rv = 0 ∧ store.allow_unconditional_update then
    return obj.with_version existing.metadata.resource_version
  else if new_rv = 0 then
    .error (new_invalid store.qualified_resource.group store.qualified_resource.resource u.name
      ["metadata.resourceVersion: Invalid value: 0: must be specified for an update"])
  else
    let existing_rv ← parse_resource_version store.debug existing.metadata
    if new_rv = existing_rv then return obj
    else .error (conflict store.qualified_resource u.name optimistic_lock_error_msg)

def try_update (ans : Answers B) (st : UpdateAttempt B) (existing : Option (Obj B)) :
    UpdateAttempt B × Except (Abort B) (Obj B) :=
  if existing.isNone ∧ !store.allow_create u then
    (st, .error (.Api (not_found store.qualified_resource u.name)))
  else
    match ans.updated_object existing with
    | .error e => (st, .error (.Api e))
    | .ok obj =>
      match parse_resource_version store.debug obj.metadata with
      | .error e => (st, .error (.Api e))
      | .ok _ =>
        match existing with
        | none => store.try_create u ans st obj
        | some existing =>
          let st : UpdateAttempt B := ⟨false, none⟩
          match store.check_version u obj existing with
          | .error e => (st, .error (.Api e))
          | .ok obj => (st, store.try_existing u ans obj existing)

def update_loop : Guarded (UpdateAttempt B) B where
  name := u.name
  ignore_not_found := store.allow_create u
  preconditions := u.preconditions
  dry_run := u.dry_run
  try_update := store.try_update u

end Store

/-! ### The callback of a delete -/

/-- The arguments of `Store::delete`, and the strategy for the request. -/
structure DeleteArgs (B : Type) where
  name : String
  options : DeleteOptions
  strategy : DeleteStrategy B

structure GracefulAttempt (B : Type) where
  options : DeleteOptions
  last_graceful : Int
  pending_finalizers : Bool
  last_existing : Option (Obj B)

def mark_as_deleting (m : ObjectMeta) (now : Int) : ObjectMeta :=
  { m with
    generation := if m.deletion_timestamp.isNone then
        m.generation.map fun g => if g > 0 then g + 1 else g
      else m.generation
    deletion_timestamp := if m.deletion_timestamp.all (· > now) then some now
      else m.deletion_timestamp
    deletion_grace_period_seconds := some 0 }

namespace Store

variable (store : Store B) (d : DeleteArgs B)

def before_delete (ans : Answers B) (obj : Obj B) (options : DeleteOptions) :
    Except Error (DeleteDecision × Obj B × DeleteOptions) :=
  Registry.before_delete d.strategy store.validate_delete_options store.qualified_resource ans.now
    obj options

/-- The metadata with the finalizers of the garbage collector as the options have
    them. -/
def collect (m : ObjectMeta) (options : DeleteOptions) : ObjectMeta :=
  collect_finalizers store.enable_garbage_collection d.strategy.default_garbage_collection_policy m
    options

/-- `GracefulAttempt::try_update`, for an object. -/
def try_mark (ans : Answers B) (st : GracefulAttempt B) (existing : Obj B) :
    GracefulAttempt B × Except (Abort B) (Obj B) :=
  match ans.delete_validation existing with
  | .error e => (st, .error (.Api e))
  | .ok () =>
    match store.before_delete d ans existing st.options with
    | .error e => (st, .error (.Api e))
    | .ok (decision, existing, options) =>
      let st := { st with options := options }
      if decision.graceful_pending then (st, .error .AlreadyDeleting)
      else
        let existing := { existing with metadata := store.collect d existing.metadata options }
        let st := { st with pending_finalizers := existing.metadata.has_finalizers }
        if !decision.graceful then
          if st.pending_finalizers then
            (st, .ok { existing with metadata := mark_as_deleting existing.metadata ans.now })
          else (st, .error .DeleteNow)
        else
          ({ st with
            last_graceful := options.grace_period_seconds.getD 0
            last_existing := some existing }, .ok existing)

/-- The loop of a delete that marks the object first. Its callback is given objects
    that exist. -/
def mark_loop (dry_run : Bool) : Guarded (GracefulAttempt B) B where
  name := d.name
  ignore_not_found := false
  preconditions := d.options.preconditions
  dry_run := dry_run
  try_update := fun ans st existing =>
    match existing with
    | some existing => store.try_mark d ans st existing
    | none => (st, .error .AlreadyDeleting)

end Store

end Registry
