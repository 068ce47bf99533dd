import Rusternetes.ServicePorts.Alloc

/-! # Requests for Services

    Creates, updates and deletes of Services, many at a time, over one port allocator.
    A step is one call to the allocator or one access to the storage. A create writes
    the Service and settles its operation with the outcome; an update of the generic
    store settles first, with the outcome of the checks, and writes then; both orders
    are here for both.
-/

open Allocator Common Framework LTS

namespace ServicePorts

open PortAllocationOperation

variable {κ ρ : Type}

/-- What a request is for: a key, and the Service it replaces there. -/
structure Task (κ : Type) where
  key : κ
  old : Option (Versioned Service)

/-- The transaction of a request. -/
def Task.txn (task : Task κ) (service : Service) (dry_run : Bool) :
    PortProg (Except Error (Service × PortAllocationOperation)) :=
  match task.old with
  | none => txn_alloc_node_ports service dry_run
  | some old => txn_update_node_ports service old.value dry_run

def Task.prepared (task : Task κ) (service : Service) : Service :=
  match task.old with
  | none => service
  | some old => drop_type_dependent_fields service old.value

/-- Whether the strategy accepts the Service. -/
def Task.valid (task : Task κ) (service : Service) : Bool :=
  match task.old with
  | none => validate_service service
  | some old => validate_service_update service old.value

/-- Where a request stands. -/
inductive Phase (κ : Type) where
  | idle
  /-- In its transaction. -/
  | allocating (task : Task κ)
      (prog : PortProg (Except Error (Service × PortAllocationOperation)))
  /-- Settling or releasing; with a Service that is then written. -/
  | settling (prog : PortProg Unit) (next : Option (Task κ × Service))

def Phase.call : Phase κ → Option ((op : PortOp) × (op.Ans → Phase κ))
  | .allocating task (.call op k) => some ⟨op, fun ans => .allocating task (k ans)⟩
  | .settling (.call op k) next => some ⟨op, fun ans => .settling (k ans) next⟩
  | _ => none

/-- The request is over. -/
def Phase.free : Phase κ → Prop
  | .idle => True
  | .allocating _ (.ret (.error _)) => True
  | .settling (.ret ()) none => True
  | _ => False

structure State (κ ρ : Type) where
  pa : PortAllocator
  stored : κ → Cell Service
  phase : ρ → Phase κ

/-- The steps. -/
inductive Label (κ ρ : Type) where
  | create (r : ρ) (k : κ) (service : Service) (dry_run : Bool)
  | update (r : ρ) (k : κ) (service : Service) (dry_run : Bool)
  | delete (r : ρ) (k : κ)
  /-- A call to the allocator. -/
  | call (r : ρ) (ans : Answers)
  /-- The write after the transaction; the operation is settled with its outcome. -/
  | write (r : ρ) (accepted : Bool)
  /-- The operation is settled with the outcome of the checks; the write comes later. -/
  | settle (r : ρ) (accepted : Bool)
  /-- The write of an operation that is settled. -/
  | store (r : ρ) (accepted : Bool)

variable [DecidableEq κ] [DecidableEq ρ]

/-- What is stored is what the request replaces: the storage compares versions. -/
def State.current (s : State κ ρ) (task : Task κ) : Bool :=
  ((s.stored task.key).content.map Versioned.revision) == (task.old.map Versioned.revision)

/-- A request moves on. -/
def State.go (s : State κ ρ) (r : ρ) (phase : Phase κ) : State κ ρ :=
  { s with phase := Function.update s.phase r phase }

def State.put (s : State κ ρ) (k : κ) (service : Service) : κ → Cell Service :=
  Function.update s.stored k ((s.stored k).put service)

def State.write (s : State κ ρ) (r : ρ) (task : Task κ) (service : Service)
    (op : PortAllocationOperation) (accepted : Bool) : State κ ρ :=
  let success := accepted && task.valid (task.prepared service) && s.current task
  { s.go r (.settling (op.settle success) none) with
    stored := if success && !op.dry_run then s.put task.key (task.prepared service) else s.stored }

def State.settle (s : State κ ρ) (r : ρ) (task : Task κ) (service : Service)
    (op : PortAllocationOperation) (accepted : Bool) : State κ ρ :=
  let success := accepted && task.valid (task.prepared service)
  s.go r (.settling (op.settle success)
    (if success && !op.dry_run then some (task, task.prepared service) else none))

/-- The write of an operation that is settled. -/
def State.store (s : State κ ρ) (r : ρ) (task : Task κ) (service : Service) (accepted : Bool) :
    State κ ρ :=
  { s.go r .idle with
    stored := if accepted && s.current task then s.put task.key service else s.stored }

/-- Two Services at different keys hold no port together. -/
def Unshared (stored : κ → Cell Service) : Prop :=
  ∀ k k' v v', k ≠ k' → (stored k).content = some v → (stored k').content = some v' →
    ∀ p ∈ held_ports v.value, p ∉ held_ports v'.value

/-- Requests over the allocator and the storage. In the beginning the ports allocated
    are those of the stored Services. -/
def service_ports (κ ρ : Type) [DecidableEq κ] [DecidableEq ρ] : System (State κ ρ) (Label κ ρ) where
  init := fun s =>
    (∀ p, s.pa.has p = true ↔ ∃ k v, (s.stored k).content = some v ∧ p ∈ held_ports v.value) ∧
    Unshared s.stored ∧ ∀ r, s.phase r = .idle
  step := fun s lbl s' =>
    match lbl with
    | .create r k service dry_run => (s.phase r).free ∧
        s' = s.go r (.allocating ⟨k, none⟩ (Task.txn ⟨k, none⟩ service dry_run))
    | .update r k service dry_run => (s.phase r).free ∧
        ∃ old, (s.stored k).content = some old ∧
        s' = s.go r (.allocating ⟨k, some old⟩ (Task.txn ⟨k, some old⟩ service dry_run))
    | .delete r k => (s.phase r).free ∧
        ∃ old, (s.stored k).content = some old ∧
        s' = { s.go r (.settling (release_node_ports old.value) none) with
          stored := Function.update s.stored k (s.stored k).clear }
    | .call r ans => ∃ op k, (s.phase r).call = some ⟨op, k⟩ ∧
        s' = { s.go r (k (s.pa.serve ans op).1) with pa := (s.pa.serve ans op).2 }
    | .write r accepted => ∃ task service op,
        s.phase r = .allocating task (.ret (.ok (service, op))) ∧
        s' = s.write r task service op accepted
    | .settle r accepted => ∃ task service op,
        s.phase r = .allocating task (.ret (.ok (service, op))) ∧
        s' = s.settle r task service op accepted
    | .store r accepted => ∃ task service,
        s.phase r = .settling (.ret ()) (some (task, service)) ∧
        s' = s.store r task service accepted

end ServicePorts
