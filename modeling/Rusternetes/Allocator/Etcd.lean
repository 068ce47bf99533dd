import Rusternetes.Allocator.Bitmap
import Rusternetes.Framework.LTS
import Rusternetes.Registry.Store

/-! # The Shared Allocator

    `Etcd`: an allocator whose bitmap is stored after every change, so that several
    api-servers share one state. Each instance keeps a copy of the bitmap and the
    version it is in sync with; a call holds the instance's lock to its end. A step
    of a call is one storage operation and what the instance does until the next.
-/

open Common Framework LTS Registry

namespace Allocator

/-- The fields of `RangeAllocation` besides the metadata. -/
structure RangeData where
  range : String
  data : List Byte
  deriving DecidableEq

abbrev RangeAllocation := Obj RangeData

/-- `Etcd::state`, with what the instance is made with. -/
structure Instance where
  alloc : AllocationBitmap
  /-- The version `alloc` was last in sync with. -/
  last : String
  key : String
  resource : String

/-! ### Calls -/

/-- A change of the bitmap, as `try_update` makes it. -/
inductive Change where
  | allocate (offset : Nat)
  | allocate_next
  | release (offset : Nat)
  deriving DecidableEq

/-- What a call returns. -/
inductive Reply where
  | allocate (result : Except Error Bool)
  | allocate_next (result : Except Error (Option Nat))
  | done (result : Except Error Unit)

/-- What is not fixed while a call goes on: the random numbers, and whether the
    storage fails other than by a conflict. -/
structure Answers where
  first : Nat
  second : Nat
  fault : Option Error

def unable_to_allocate : String := "unable to allocate"

/-- The closure that is given to `try_update`: the offset that is granted, if any, and
    the bitmap. -/
def Change.apply (change : Change) (ans : Answers) (alloc : AllocationBitmap) :
    Except Error (Option Nat × AllocationBitmap) :=
  match change with
  | .allocate offset =>
    match alloc.allocate offset with
    | .error e => .error e
    | .ok (true, alloc) => .ok (some offset, alloc)
    | .ok (false, _) => .error (.Internal unable_to_allocate)
  | .allocate_next =>
    match alloc.allocate_next ans.first ans.second with
    | .error e => .error e
    | .ok (some offset, alloc) => .ok (some offset, alloc)
    | .ok (none, _) => .error (.Internal unable_to_allocate)
  | .release offset => .ok (none, alloc.release offset)

/-- What `allocate`, `allocate_next` and `release` make of the result of
    `try_update`. -/
def Change.reply (change : Change) (granted : Option Nat) (result : Except Error Unit) : Reply :=
  match change, result with
  | .allocate _, .ok () => .allocate (.ok true)
  | .allocate _, .error (.Internal msg) =>
    .allocate (if msg = unable_to_allocate then .ok false else .error (.Internal msg))
  | .allocate _, .error e => .allocate (.error e)
  | .allocate_next, .ok () => .allocate_next (.ok granted)
  | .allocate_next, .error (.Internal msg) =>
    .allocate_next (if msg = unable_to_allocate then .ok none else .error (.Internal msg))
  | .allocate_next, .error e => .allocate_next (.error e)
  | .release _, result => .done result

/-- Where an instance stands: before which storage operation. -/
inductive Pc where
  | idle
  /-- In `try_update`, before its read. -/
  | reading (change : Change)
  /-- In `try_update`, before its write. -/
  | writing (change : Change) (updated : RangeAllocation) (granted : Option Nat)
  /-- In `create_or_update`, before its read. -/
  | checking (snapshot : RangeAllocation)
  /-- In `create_or_update`, before its update. -/
  | replacing (snapshot : RangeAllocation)
  /-- In `create_or_update`, before its create. -/
  | creating (snapshot : RangeAllocation)
  | returned (reply : Reply)

/-! ### Steps of a call -/

/-- An operation of the storage, which may fail otherwise. -/
def faulty {α : Type} (ans : Answers) (db : Storage RangeData)
    (op : Except Error α × Storage RangeData) : Except Error α × Storage RangeData :=
  match ans.fault with
  | some e => (.error e, db)
  | none => op

/-- The bitmap in sync with what is stored, as `try_update` reads it. -/
def Instance.synced (inst : Instance) (rv : String) (existing : RangeAllocation) :
    Except Error AllocationBitmap :=
  if rv ≠ inst.last then inst.alloc.restore existing.body.range existing.body.data
  else .ok inst.alloc

/-- `try_update` from its read to its write. -/
def after_read (inst : Instance) (change : Change) (ans : Answers)
    (got : Except Error RangeAllocation) : Instance × Pc :=
  let failed (inst : Instance) (e : Error) : Instance × Pc :=
    (inst, .returned (change.reply none (.error e)))
  let unavailable : Error :=
    .Internal ("cannot allocate resources of type " ++ inst.resource ++ " at this time")
  match got with
  | .error (.NotFound _) => failed inst unavailable
  | .error e => failed inst e
  | .ok existing =>
    match existing.metadata.resource_version with
    | none => failed inst unavailable
    | some rv =>
      match inst.synced rv existing with
      | .error e => failed inst e
      | .ok alloc =>
        match change.apply ans alloc with
        | .error e => failed { inst with alloc := alloc } e
        | .ok (granted, alloc) =>
          let updated := { existing with body := ⟨alloc.snapshot.1, alloc.snapshot.2⟩ }
          ({ inst with alloc := alloc, last := rv }, .writing change updated granted)

/-- `try_update` after its write: it is retried when it lost a race. -/
def after_write (change : Change) (granted : Option Nat) (got : Except Error RangeAllocation) :
    Pc :=
  match got with
  | .ok _ => .returned (change.reply granted (.ok ()))
  | .error (.Conflict _) => .reading change
  | .error e => .returned (change.reply none (.error e))

/-- The error of `create_or_update`. -/
def conflict_error (inst : Instance) (reason : String) : Error :=
  .Conflict ("Operation cannot be fulfilled on " ++ inst.resource ++ ": " ++ reason)

def version (snapshot : RangeAllocation) : String := snapshot.metadata.resource_version.getD ""

/-- `create_or_update` from its read to its write. -/
def after_check (inst : Instance) (snapshot : RangeAllocation)
    (got : Except Error RangeAllocation) : Pc :=
  match got with
  | .error (.NotFound _) => .creating snapshot
  | .error e => .returned (.done (.error e))
  | .ok existing =>
    if version snapshot ≠ "" ∧ version existing ≠ "" then
      if version snapshot ≠ version existing then
        .returned (.done (.error
          (conflict_error inst "the provided resource version does not match")))
      else .replacing snapshot
    else if version existing ≠ "" then
      .returned (.done (.error
        (conflict_error inst "another caller has already initialized the resource")))
    else .replacing snapshot

/-- `create_or_update` after its write. -/
def after_replace (inst : Instance) (snapshot : RangeAllocation)
    (got : Except Error RangeAllocation) : Instance × Pc :=
  match got with
  | .error e => (inst, .returned (.done (.error e)))
  | .ok _ =>
    match inst.alloc.restore snapshot.body.range snapshot.body.data with
    | .error e => (inst, .returned (.done (.error e)))
    | .ok alloc =>
      ({ inst with alloc := alloc, last := version snapshot }, .returned (.done (.ok ())))

/-! ### What is committed -/

variable {ι : Type}

/-- A write that the storage took. -/
inductive Event (ι : Type) where
  /-- An allocation: the offset, and what is stored then. -/
  | granted (i : ι) (offset : Nat) (stored : Option (Versioned RangeAllocation))
  | released (i : ι) (offset : Nat)
  /-- The bitmap was replaced by that of a snapshot. -/
  | replaced (i : ι) (data : List Byte)

def Change.events (change : Change) (i : ι) (granted : Option Nat)
    (stored : Option (Versioned RangeAllocation)) : List (Event ι) :=
  match change, granted with
  | .release offset, _ => [.released i offset]
  | _, some offset => [.granted i offset stored]
  | _, none => []

/-- The events of an operation: none if it failed. -/
def committed (got : Except Error RangeAllocation) (events : List (Event ι)) : List (Event ι) :=
  match got with
  | .ok _ => events
  | .error _ => []

/-- One storage operation of an instance, and what follows: the instance, where it
    stands, the storage, and what was committed. -/
def advance (i : ι) (inst : Instance) (pc : Pc) (ans : Answers) (db : Storage RangeData) :
    Instance × Pc × Storage RangeData × List (Event ι) :=
  match pc with
  | .idle => (inst, .idle, db, [])
  | .reading change =>
    let next := after_read inst change ans (faulty ans db (Storage.get inst.key db, db)).1
    (next.1, next.2, db, [])
  | .writing change updated granted =>
    let op := faulty ans db (Storage.update inst.key db updated)
    (inst, after_write change granted op.1, op.2,
      committed op.1 (change.events i granted op.2.content))
  | .checking snapshot =>
    (inst, after_check inst snapshot (faulty ans db (Storage.get inst.key db, db)).1, db, [])
  | .replacing snapshot =>
    let op := faulty ans db (Storage.update inst.key db snapshot)
    let next := after_replace inst snapshot op.1
    (next.1, next.2, op.2, committed op.1 [.replaced i snapshot.body.data])
  | .creating snapshot =>
    let op := faulty ans db (Storage.create inst.key db (snapshot.with_version none))
    let next := after_replace inst snapshot op.1
    (next.1, next.2, op.2, committed op.1 [.replaced i snapshot.body.data])
  | .returned reply => (inst, .returned reply, db, [])

/-! ### The system -/

inductive Call where
  | try_update (change : Change)
  | create_or_update (snapshot : RangeAllocation)

def Call.begins : Call → Pc
  | .try_update change => .reading change
  | .create_or_update snapshot => .checking snapshot

structure State (ι : Type) where
  db : Storage RangeData
  inst : ι → Instance
  pc : ι → Pc
  /-- What was committed, newest first. -/
  log : List (Event ι)

inductive Label (ι : Type) where
  | call (i : ι) (call : Call)
  | step (i : ι) (ans : Answers)
  /-- Another key is written. -/
  | elsewhere

/-- The instance is between two calls. -/
def Pc.free : Pc → Prop
  | .idle | .returned _ => True
  | _ => False

def State.after [DecidableEq ι] (s : State ι) (i : ι) (ans : Answers) : State ι :=
  let op := advance i (s.inst i) (s.pc i) ans s.db
  ⟨op.2.2.1, Function.update s.inst i op.1, Function.update s.pc i op.2.1, op.2.2.2 ++ s.log⟩

/-- Several instances over one storage. A conflict is only ever reported by the
    comparison of versions. -/
def shared_allocator (ι : Type) [DecidableEq ι] : System (State ι) (Label ι) where
  init := fun s => (∀ i, (s.inst i).last = "") ∧ (∀ i, s.pc i = .idle) ∧ s.log = []
  step := fun s lbl s' =>
    match lbl with
    | .call i call => (s.pc i).free ∧ s' = { s with pc := Function.update s.pc i call.begins }
    | .step i ans => (∀ msg, ans.fault ≠ some (.Conflict msg)) ∧ s' = s.after i ans
    | .elsewhere => s' = { s with db := s.db.pass }

end Allocator
