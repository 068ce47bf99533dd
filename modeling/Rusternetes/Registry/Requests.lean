import Rusternetes.Framework.LTS
import Rusternetes.Registry.Store

/-! # The Generic Registry: Requests

    `Store::create`, `Store::update` and `Store::delete` on one key, cut at their
    storage operations: a step of a request is one storage operation and what the
    store does until the next one. Any number of requests (`R`) run at once.

    Beside the storage stands what each request did to the key. Creating under a
    generated name is one request here for each name that is tried.
-/

open Common Framework LTS

namespace Registry

variable {B : Type}

/-! ### Requests and answers -/

/-- The arguments of `Store::create`. -/
structure CreateArgs (B : Type) where
  obj : Obj B
  ns : Option String
  dry_run : Bool

inductive Request (B : Type) where
  | create (c : CreateArgs B)
  | update (u : UpdateArgs)
  | delete (d : DeleteArgs B)

structure StatusDetails where
  name : String
  group : String
  kind : String
  uid : Option String

inductive Deleted (B : Type) where
  | Object (obj : Obj B)
  | Status (details : StatusDetails)

/-- What a request returns. -/
inductive Response (B : Type) where
  | created (obj : Obj B)
  | updated (obj : Obj B) (creating : Bool)
  | deleted (what : Deleted B) (removed : Bool)

/-! ### Where a request stands -/

/-- Why an object is to be removed. -/
inductive Warrant (B : Type) where
  /-- An update, answered so, left the object `obj` without finalizers. -/
  | emptied (ans : Answers B) (obj : Obj B)
  /-- A delete found that no grace is due under the options. -/
  | unmarked (options : DeleteOptions)
  /-- A delete marked the object, with no grace left. -/
  | marked

/-- What a removal was decided on: what was stored then, and why. -/
structure Ground (B : Type) where
  seen : Option (Versioned (Obj B))
  warrant : Warrant B

/-- Where `storage_delete` stands. -/
inductive Removal (B : Type) where
  | check
  /-- The object `current` passed the check, when `checked` was stored. -/
  | delete (checked : Option (Versioned (Obj B))) (current : Obj B)

/-- The variables of `Store::delete` when it comes to the removal. -/
structure Deleting (B : Type) where
  options : DeleteOptions
  preconditions : Option Preconditions
  ignore_not_found : Bool
  last_existing : Option (Obj B)

/-- Where a request stands: before which storage operation. -/
inductive Pc (B : Type) where
  | idle
  /-- In `create_prepared`, before the create, or before the read of a dry run. -/
  | creating (c : CreateArgs B) (obj : Obj B)
  /-- In `create_prepared`, the name is taken. -/
  | taken (c : CreateArgs B) (msg : String)
  /-- In the `guaranteed_update` of `update`. -/
  | updating (u : UpdateArgs) (loop : Loop (UpdateAttempt B) B)
  /-- In `delete_without_finalizers`. -/
  | emptied (u : UpdateArgs) (obj : Obj B) (ground : Ground B) (removal : Removal B)
  /-- In `delete`, before the first read. -/
  | reading (d : DeleteArgs B)
  /-- In `update_for_graceful_deletion_and_finalizers`. -/
  | marking (d : DeleteArgs B) (input : Obj B) (dry_run : Bool)
      (loop : Loop (GracefulAttempt B) B)
  /-- In the `storage_delete` of `delete`. -/
  | deleting (d : DeleteArgs B) (vars : Deleting B) (ground : Ground B) (removal : Removal B)
  | finished (req : Request B) (result : Except Error (Response B))

def Pc.request : Pc B → Option (Request B)
  | .idle => none
  | .creating c _ | .taken c _ => some (.create c)
  | .updating u _ | .emptied u _ _ _ => some (.update u)
  | .reading d | .marking d _ _ _ | .deleting d _ _ _ => some (.delete d)
  | .finished req _ => some req

/-- What a request did to the key. -/
inductive Effect (B : Type) where
  /-- Stored an object where there was none. -/
  | created (ans : Answers B) (new : Versioned (Obj B))
  /-- Replaced an object. -/
  | wrote (ans : Answers B) (old new : Versioned (Obj B))
  /-- Left the object as it is, since it would not have changed. -/
  | kept (ans : Answers B) (what : Versioned (Obj B))
  /-- Was about to remove an object, and was told that it is gone. -/
  | gone (ground : Ground B)
  /-- Removed an object, on the ground given and after the check of what was stored
      then. -/
  | removed (ground : Ground B) (checked : Option (Versioned (Obj B))) (old : Versioned (Obj B))

/-! ### Storage operations of a request -/

/-- An operation of the storage, which may fail otherwise. -/
def faulty {α : Type} (ans : Answers B) (db : Storage B) (op : Except Error α × Storage B) :
    Except Error α × Storage B :=
  match ans.fault with
  | some e => (.error e, db)
  | none => op

/-- A read. -/
def fetch (store : Store B) (ans : Answers B) (db : Storage B) : Except Error (Obj B) :=
  (faulty ans db (Storage.get store.key db, db)).1

def create_effect (ans : Answers B) (db db' : Storage B) : List (Effect B) :=
  match db.content, db'.content with
  | none, some new => [.created ans new]
  | _, _ => []

def write_effect (ans : Answers B) (db db' : Storage B) : List (Effect B) :=
  match db.content, db'.content with
  | some old, some new => if old.revision = new.revision then [] else [.wrote ans old new]
  | _, _ => []

def remove_effect (ground : Ground B) (checked : Option (Versioned (Obj B)))
    (db db' : Storage B) : List (Effect B) :=
  match db.content, db'.content with
  | some old, none => [.removed ground checked old]
  | _, _ => []

def gone_effect (ground : Ground B) (dry_run : Bool) (result : Except Error Unit) :
    List (Effect B) :=
  match result with
  | .error (.NotFound _) => if dry_run then [] else [.gone ground]
  | _ => []

/-- A loop that ends at its read without an error, and is no dry run, keeps what it
    read. -/
def read_effect {σ : Type} (ans : Answers B) (dry_run : Bool) (db : Storage B) :
    Next σ B → List (Effect B)
  | .out _ (.ok _) => if dry_run then [] else (db.content.map (.kept ans ·)).toList
  | _ => []

section Machine

variable [DecidableEq B] (store : Store B)

/-- A storage operation of `guaranteed_update`. -/
def loop_step {σ : Type} (g : Guarded σ B) (ans : Answers B) (db : Storage B) :
    Loop σ B → Next σ B × Storage B × List (Effect B)
  | .read st =>
    let next := after_read store g ans st (fetch store ans db)
    (next, db, read_effect ans g.dry_run db next)
  | .create st attempt updated =>
    let (got, db') := faulty ans db (Storage.create store.key db updated)
    (after_create store st got, db', create_effect attempt db db')
  | .write st attempt updated _ =>
    let (got, db') := faulty ans db (Storage.update store.key db updated)
    (after_write store st got, db', write_effect attempt db db')

/-- The read of `storage_delete`: an error, the object if nothing is to be removed,
    or the object to go on with. -/
def storage_delete_read (name : String) (preconditions : Option Preconditions)
    (validate : Obj B → Except Error Unit) (dry_run : Bool) (got : Except Error (Obj B)) :
    Except Error (Obj B) ⊕ Obj B :=
  match got with
  | .error e => .inl (.error e)
  | .ok obj =>
    let current := store.decode obj
    match check_preconditions preconditions (some current) with
    | some failure =>
      .inl (.error (conflict store.qualified_resource name (store.storage_error_text failure)))
    | none =>
      match validate current with
      | .error e => .inl (.error e)
      | .ok () => if dry_run then .inl (.ok current) else .inr current

/-! ### Create -/

/-- `create_once` up to its first storage operation. -/
def begin_create (c : CreateArgs B) (ans : Answers B) : Pc B :=
  let failed (e : Error) : Pc B := .finished (.create c) (.error e)
  let m := fill_object_meta_system_fields ans c.obj.metadata
  let m := if needs_name m then { m with name := ans.generate_name (m.generate_name.getD "") } else m
  let obj := { c.obj with metadata := m }
  let hooked : Except Error (Obj B) := match ans.begin_create with
    | none => .ok obj
    | some hook => hook obj
  match hooked with
  | .error e => failed e
  | .ok obj =>
    match before_create ans store.namespace_scoped c.ns obj with
    | .error e => failed (with_group_kind store.kind store.qualified_resource.group e)
    | .ok obj =>
      match ans.create_validation obj with
      | .error e => failed e
      | .ok () =>
        match store.calculate_ttl obj 0 false with
        | .error e => failed e
        | .ok _ => .creating c obj

/-- The write of `create_prepared`, or the read of a dry run. -/
def create_operation (c : CreateArgs B) (obj : Obj B) (ans : Answers B) (db : Storage B) :
    Except Error (Obj B) × Storage B :=
  if c.dry_run then
    match fetch store ans db with
    | .ok _ => (.error (.AlreadyExists store.key), db)
    | .error (.NotFound _) => (.ok obj, db)
    | .error e => (.error e, db)
  else
    let op := faulty ans db (Storage.create store.key db obj)
    (op.1.map store.decode, op.2)

/-- `create_prepared` after it. -/
def finish_create (c : CreateArgs B) (obj : Obj B) (ans : Answers B)
    (result : Except Error (Obj B)) : Pc B :=
  match result with
  | .ok out => .finished (.create c) (.ok (.created (ans.decorate out)))
  | .error e =>
    match check_generated_name_error store.qualified_resource
        (store.interpret_create_error e obj.metadata.name) obj with
    | .AlreadyExists msg => .taken c msg
    | e => .finished (.create c) (.error e)

def create_step (c : CreateArgs B) (obj : Obj B) (ans : Answers B) (db : Storage B) :
    Pc B × Storage B × List (Effect B) :=
  let op := create_operation store c obj ans db
  (finish_create store c obj ans op.1, op.2, create_effect ans db op.2)

/-- The last read of `create_prepared`: an object on its way out is reported. -/
def taken_step (c : CreateArgs B) (msg : String) (ans : Answers B) (db : Storage B) : Pc B :=
  let being_deleted := match fetch store ans db with
    | .ok existing => existing.metadata.deletion_timestamp.isSome
    | .error _ => false
  .finished (.create c)
    (.error (.AlreadyExists (if being_deleted then "object is being deleted: " ++ msg else msg)))

/-! ### Update -/

/-- `update` after its `guaranteed_update`. The two sentinels of a delete do not
    occur. -/
def finish_update (u : UpdateArgs) (ans : Answers B) (db : Storage B) (st : UpdateAttempt B)
    (outcome : Except (Abort B) (Obj B)) : Pc B :=
  match outcome with
  | .ok out => .finished (.update u) (.ok (.updated (ans.decorate out) st.creating))
  | .error (.EmptiedFinalizers obj) => .emptied u obj ⟨db.content, .emptied ans obj⟩ .check
  | .error (.Api err) =>
    .finished (.update u) (.error (
      if st.creating then
        let err := store.interpret_create_error err u.name
        match st.creating_obj with
        | some obj => check_generated_name_error store.qualified_resource err obj
        | none => err
      else store.interpret_update_error err u.name))
  | .error .DeleteNow | .error .AlreadyDeleting =>
    .finished (.update u) (.error (.Internal "the update callback never returns a delete sentinel"))

/-- A storage operation of the `guaranteed_update` of `update`. -/
def update_step (u : UpdateArgs) (loop : Loop (UpdateAttempt B) B) (ans : Answers B)
    (db : Storage B) : Pc B × Storage B × List (Effect B) :=
  let op := loop_step store (store.update_loop u) ans db loop
  let pc := match op.1 with
    | .again loop => .updating u loop
    | .out st outcome => finish_update store u ans op.2.1 st outcome
  (pc, op.2)

/-- `delete_without_finalizers` after its `storage_delete`. That the object is gone
    already counts as success. -/
def finish_emptied (u : UpdateArgs) (obj : Obj B) (result : Except Error Unit) : Pc B :=
  .finished (.update u) (match result with
    | .ok () => .ok (.updated obj false)
    | .error (.NotFound _) => .ok (.updated obj false)
    | .error e => .error (store.interpret_delete_error e u.name))

/-- A storage operation of `delete_without_finalizers`. -/
def emptied_step (u : UpdateArgs) (obj : Obj B) (ground : Ground B) (removal : Removal B)
    (ans : Answers B) (db : Storage B) : Pc B × Storage B × List (Effect B) :=
  match removal with
  | .check =>
    match storage_delete_read store u.name u.preconditions (fun _ => .ok ()) u.dry_run
        (fetch store ans db) with
    | .inl result =>
      let result := result.map fun _ => ()
      (finish_emptied store u obj result, db, gone_effect ground u.dry_run result)
    | .inr current => (.emptied u obj ground (.delete db.content current), db, [])
  | .delete checked _ =>
    let op := faulty ans db (Storage.delete store.key db)
    (finish_emptied store u obj op.1, op.2,
      remove_effect ground checked db op.2 ++ gone_effect ground u.dry_run op.1)

/-! ### Delete -/

def finalize_delete (ans : Answers B) (obj : Obj B) : Deleted B :=
  if store.return_deleted_object then .Object (ans.decorate obj)
  else .Status ⟨obj.metadata.name, store.qualified_resource.group,
    store.qualified_resource.resource, if obj.metadata.uid = "" then none else some obj.metadata.uid⟩

/-- `delete` after its first read, which is not decoded. -/
def reading_step (d : DeleteArgs B) (ans : Answers B) (db : Storage B) : Pc B :=
  match fetch store ans db with
  | .error e => .finished (.delete d) (.error (store.interpret_delete_error e d.name))
  | .ok obj =>
    match store.before_delete d ans obj d.options with
    | .error e => .finished (.delete d) (.error e)
    | .ok (decision, obj, options) =>
      if decision.graceful_pending then
        .finished (.delete d) (.ok (.deleted (finalize_delete store ans obj) false))
      else if decision.graceful || obj.metadata.has_finalizers ||
          (deletion_finalizers_for_garbage_collection store.enable_garbage_collection
            d.strategy.default_garbage_collection_policy obj.metadata options).1 then
        .marking d obj (is_dry_run options) (.read ⟨options, 0, false, none⟩)
      else
        .deleting d ⟨options, d.options.preconditions, false, none⟩
          ⟨db.content, .unmarked d.options⟩ .check

/-- The preconditions for the object `out`, which was just written. -/
def refer_to (preconditions : Option Preconditions) (out : Obj B) : Option Preconditions :=
  preconditions.map fun p =>
    if p.resource_version.isSome then { p with resource_version := out.metadata.resource_version }
    else p

/-- `delete` before its `storage_delete`, for the object `out` that was written. A dry
    run ends here. -/
def go_remove (d : DeleteArgs B) (db : Storage B) (st : GracefulAttempt B) (out : Obj B)
    (ignore_not_found : Bool) (warrant : Warrant B) : Pc B :=
  if is_dry_run st.options then .finished (.delete d) (.ok (.deleted (.Object out) true))
  else
    .deleting d
      ⟨st.options, refer_to d.options.preconditions out, ignore_not_found, st.last_existing⟩
      ⟨db.content, warrant⟩ .check

/-- `delete` after its `guaranteed_update`; `options` are those of the last attempt
    before it was made. In a dry run nothing was marked. -/
def finish_mark (d : DeleteArgs B) (input : Obj B) (dry_run : Bool) (options : DeleteOptions)
    (ans : Answers B) (db : Storage B) (st : GracefulAttempt B)
    (outcome : Except (Abort B) (Obj B)) : Pc B :=
  match outcome with
  | .ok out =>
    if st.pending_finalizers || st.last_graceful > 0 then
      .finished (.delete d) (.ok (.deleted (.Object out) false))
    else go_remove d db st out true (if dry_run then .unmarked options else .marked)
  | .error .DeleteNow => go_remove d db st input false (.unmarked options)
  | .error .AlreadyDeleting =>
    .finished (.delete d) (.ok (.deleted (finalize_delete store ans input) false))
  | .error (.Api e) => .finished (.delete d) (.error (store.interpret_update_error e d.name))
  | .error (.EmptiedFinalizers _) =>
    .finished (.delete d) (.error (.Internal "the delete callback never empties finalizers"))

def Loop.options : Loop (GracefulAttempt B) B → DeleteOptions
  | .read st | .create st _ _ | .write st _ _ _ => st.options

/-- A storage operation of the `guaranteed_update` of `delete`. -/
def mark_step (d : DeleteArgs B) (input : Obj B) (dry_run : Bool)
    (loop : Loop (GracefulAttempt B) B) (ans : Answers B) (db : Storage B) :
    Pc B × Storage B × List (Effect B) :=
  let op := loop_step store (store.mark_loop d dry_run) ans db loop
  let pc := match op.1 with
    | .again loop => .marking d input dry_run loop
    | .out st outcome => finish_mark store d input dry_run loop.options ans op.2.1 st outcome
  (pc, op.2)

/-- `delete` after its `storage_delete`. After a graceless delete the object may be
    gone already. -/
def finish_delete (d : DeleteArgs B) (vars : Deleting B) (ans : Answers B)
    (result : Except Error (Obj B)) : Pc B :=
  let removed (obj : Obj B) : Pc B :=
    .finished (.delete d) (.ok (.deleted (finalize_delete store ans obj) true))
  match result, vars.ignore_not_found, vars.last_existing with
  | .ok current, _, _ => removed current
  | .error (.NotFound _), true, some last => removed last
  | .error e, _, _ => .finished (.delete d) (.error (store.interpret_delete_error e d.name))

/-- A storage operation of the `storage_delete` of `delete`. -/
def deleting_step (d : DeleteArgs B) (vars : Deleting B) (ground : Ground B)
    (removal : Removal B) (ans : Answers B) (db : Storage B) :
    Pc B × Storage B × List (Effect B) :=
  match removal with
  | .check =>
    match storage_delete_read store d.name vars.preconditions ans.delete_validation
        (is_dry_run vars.options) (fetch store ans db) with
    | .inl result => (finish_delete store d vars ans result, db, [])
    | .inr current => (.deleting d vars ground (.delete db.content current), db, [])
  | .delete checked current =>
    let op := faulty ans db (Storage.delete store.key db)
    (finish_delete store d vars ans (op.1.map fun _ => current), op.2,
      remove_effect ground checked db op.2)

/-! ### The system -/

/-- A request up to its first storage operation. -/
def begin_request (req : Request B) (ans : Answers B) : Pc B :=
  match req with
  | .create c => begin_create store c ans
  | .update u => .updating u (.read ⟨false, none⟩)
  | .delete d => .reading d

/-- One storage operation of a request, and what follows. -/
def advance (pc : Pc B) (ans : Answers B) (db : Storage B) : Pc B × Storage B × List (Effect B) :=
  match pc with
  | .idle => (.idle, db, [])
  | .creating c obj => create_step store c obj ans db
  | .taken c msg => (taken_step store c msg ans db, db, [])
  | .updating u loop => update_step store u loop ans db
  | .emptied u obj ground removal => emptied_step store u obj ground removal ans db
  | .reading d => (reading_step store d ans db, db, [])
  | .marking d input dry_run loop => mark_step store d input dry_run loop ans db
  | .deleting d vars ground removal => deleting_step store d vars ground removal ans db
  | .finished req result => (.finished req result, db, [])

end Machine

structure State (R B : Type) where
  db : Storage B
  pc : R → Pc B
  /-- What each request did, newest first. -/
  effects : R → List (Effect B)

inductive Label (R B : Type) where
  | start (r : R) (req : Request B) (ans : Answers B)
  | step (r : R) (ans : Answers B)
  /-- Another key is written. -/
  | elsewhere

def registry {R B : Type} [DecidableEq R] [DecidableEq B] (store : Store B) :
    System (State R B) (Label R B) where
  init := fun s => (∀ r, s.pc r = .idle) ∧ ∀ r, s.effects r = []
  step := fun s lbl s' =>
    match lbl with
    | .start r req ans =>
      s.pc r = .idle ∧ s' = { s with pc := Function.update s.pc r (begin_request store req ans) }
    | .step r ans =>
      let op := advance store (s.pc r) ans s.db
      s' = ⟨op.2.1, Function.update s.pc r op.1,
        Function.update s.effects r (op.2.2 ++ s.effects r)⟩
    | .elsewhere => s' = { s with db := s.db.pass }

end Registry
