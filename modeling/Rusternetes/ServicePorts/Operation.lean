import Rusternetes.ServicePorts.Service

/-! # Port Allocation Operations

    `PortAllocationOperation`: allocations are made at once, releases are deferred. A
    commit makes the deferred releases, a rollback releases what was allocated.
-/

open Allocator Common Framework List

namespace ServicePorts

structure PortAllocationOperation where
  allocated : List Nat
  release_deferred : List Nat
  should_rollback : Bool
  dry_run : Bool

namespace PortAllocationOperation

def start (dry_run : Bool) : PortAllocationOperation := ⟨[], [], true, dry_run⟩

/-- Best-effort releases: an error is not acted upon. -/
def release_all (ports : List Nat) : PortProg Unit :=
  Prog.for_each (fun port => call_release port >>= fun _ => pure ()) ports

def rollback (op : PortAllocationOperation) : PortProg Unit :=
  if op.dry_run then pure () else release_all op.allocated

def finish (op : PortAllocationOperation) : PortProg Unit :=
  if op.should_rollback then op.rollback else pure ()

def commit (op : PortAllocationOperation) : PortProg PortAllocationOperation :=
  if op.dry_run then pure op
  else release_all op.release_deferred >>= fun _ => pure { op with should_rollback := false }

def took (op : PortAllocationOperation) (port : Nat) : PortAllocationOperation :=
  { op with allocated := op.allocated ++ [port] }

def allocate (op : PortAllocationOperation) (port : Nat) :
    PortProg (PortResult Unit × PortAllocationOperation) :=
  if op.dry_run then
    call_has port >>= fun has =>
      if has || op.allocated.contains port then pure (.error .Allocated, op)
      else pure (.ok (), op.took port)
  else
    call_allocate port >>= fun result =>
      match result with
      | .error e => pure (.error e, op)
      | .ok () => pure (.ok (), op.took port)

def allocate_next (op : PortAllocationOperation) :
    PortProg (PortResult Nat × PortAllocationOperation) :=
  if op.dry_run then
    let last_port := op.allocated.max?.getD 32768
    pure (.ok (last_port + 1), op.took (last_port + 1))
  else
    call_allocate_next >>= fun result =>
      match result with
      | .error e => pure (.error e, op)
      | .ok port => pure (.ok port, op.took port)

/-- `PortAllocationOperation::release_deferred`. -/
def defer (op : PortAllocationOperation) (ports : List Nat) : PortAllocationOperation :=
  { op with release_deferred := op.release_deferred ++ ports }

def settle (op : PortAllocationOperation) (success : Bool) : PortProg Unit :=
  (if success then op.commit else pure op) >>= fun op => op.finish

/-! ### Tokens -/

variable {pr : PortRange} {op op' : PortAllocationOperation} {own own' : Set Nat}

def Owns (pr : PortRange) (own : Set Nat) (ports : List Nat) : Prop :=
  (∀ p ∈ ports, pr.IsToken p → p ∈ own) ∧ ports.Pairwise fun p q => pr.IsToken p → p ≠ q

/-- What holds of an operation that goes on: it owns what it allocated. -/
structure Running (pr : PortRange) (op : PortAllocationOperation) (own : Set Nat) : Prop where
  should_rollback : op.should_rollback = true
  owns : op.dry_run = false → Owns pr own op.allocated
  in_range : op.dry_run = false → ∀ p ∈ op.allocated, pr.contains p = true

/-- One operation comes after another. -/
structure Extends (op op' : PortAllocationOperation) : Prop where
  allocated : ∀ p ∈ op.allocated, p ∈ op'.allocated
  release_deferred : op'.release_deferred = op.release_deferred
  dry_run : op'.dry_run = op.dry_run

theorem Extends.refl : Extends op op := ⟨fun _ h => h, rfl, rfl⟩

theorem Extends.trans {op'' : PortAllocationOperation} (h : Extends op op')
    (h' : Extends op' op'') : Extends op op'' :=
  ⟨fun p hp => h'.allocated p (h.allocated p hp), h'.release_deferred.trans h.release_deferred,
    h'.dry_run.trans h.dry_run⟩

theorem extends_took (op : PortAllocationOperation) (port : Nat) : Extends op (op.took port) :=
  ⟨fun _ h => mem_append_left _ h, rfl, rfl⟩

@[simp]
theorem defer_nil (op : PortAllocationOperation) : op.defer [] = op := by
  simp [defer]

theorem safe_release_all {ports : List Nat} (h : Owns pr own ports) :
    Safe (port_tokens pr) (fun _ _ => True) own (release_all ports) := by
  refine (safe_for_each (I := fun rest own => Owns pr own rest) ?_ ports own h).mono
    fun _ _ _ => trivial
  intro p rest own ⟨hown, hdistinct⟩
  obtain ⟨hp, hrest⟩ := pairwise_cons.mp hdistinct
  have hspends : pr.token p ⊆ own := by
    rintro q ⟨rfl, htok⟩
    exact hown q (.head _) htok
  have hleft : Owns pr (own \ pr.token p) rest := by
    refine ⟨?_, hrest⟩
    intro q hq htok
    refine ⟨hown q (.tail _ hq) htok, ?_⟩
    -- the rest does not name `p` again
    rintro ⟨rfl, htok'⟩
    exact hp q hq htok' rfl
  exact .seq (safe_call_release hspends fun _ => hleft)

theorem safe_settle_commit (hdry : op.dry_run = false) (h : Owns pr own op.release_deferred) :
    Safe (port_tokens pr) (fun _ _ => True) own (op.settle true) := by
  have hcommit : Safe (port_tokens pr) (fun op' _ => op'.should_rollback = false) own
      op.commit := by
    unfold commit
    rw [hdry]
    exact (safe_release_all h).bind fun _ _ _ => safe_ret rfl
  refine hcommit.bind ?_
  intro op' own' hno
  unfold finish
  rw [hno]
  exact trivial

theorem settle_nothing_deferred (hdry : op.dry_run = false) (h : op.release_deferred = []) :
    op.settle true = pure () := by
  have hcommit : op.commit = pure { op with should_rollback := false } := by
    unfold commit
    rw [hdry, h]
    rfl
  unfold settle
  rw [if_pos rfl, hcommit]
  rfl

/-- What an attempt to allocate leads to: a success names the port. -/
def Attempted (pr : PortRange) (op : PortAllocationOperation) (port : Option Nat)
    (op' : PortAllocationOperation) (own' : Set Nat) : Prop :=
  Running pr op' own' ∧ Extends op op' ∧ ∀ p, port = some p → p ∈ op'.allocated

theorem attempted_took {port : Nat} (h : Running pr (op.took port) own) :
    Attempted pr op (some port) (op.took port) own := by
  refine ⟨h, extends_took op port, ?_⟩
  intro p hp
  cases hp
  exact mem_append_right _ (mem_singleton.mpr rfl)

variable (h : Running pr op own)
include h

theorem Running.defer (ports : List Nat) : Running pr (op.defer ports) own :=
  { h with }

theorem Running.safe_rollback : Safe (port_tokens pr) (fun _ _ => True) own op.finish := by
  unfold finish rollback
  rw [if_pos h.should_rollback]
  cases hdry : op.dry_run with
  | true => exact trivial
  | false => exact safe_release_all (h.owns hdry)

theorem Running.took (hdry : op.dry_run = false) {port : Nat}
    (hin : pr.contains port = true)
    (hnew : Disjoint (pr.token port) own) : Running pr (op.took port) (own ∪ pr.token port) := by
  obtain ⟨hroll, howns, hrange⟩ := h
  obtain ⟨hown, hdistinct⟩ := howns hdry
  refine ⟨hroll, fun _ => ⟨?_, ?_⟩, ?_⟩
  · exact forall_mem_append.mpr ⟨fun p hp htok => .inl (hown p hp htok),
      forall_mem_singleton.mpr fun htok => .inr ⟨rfl, htok⟩⟩
  · refine pairwise_append.mpr ⟨hdistinct, pairwise_singleton _ _, ?_⟩
    rintro p hp q hq htok rfl
    obtain rfl := mem_singleton.mp hq
    exact hnew.notMem_of_mem_left ⟨rfl, htok⟩ (hown p hp htok)
  · exact fun _ => forall_mem_append.mpr ⟨hrange hdry, forall_mem_singleton.mpr hin⟩

theorem Running.took_dry (hdry : op.dry_run = true) (port : Nat) (own' : Set Nat) :
    Running pr (op.took port) own' :=
  ⟨h.should_rollback, fun hd => absurd (hdry.symm.trans hd) (by simp),
    fun hd => absurd (hdry.symm.trans hd) (by simp)⟩

theorem Running.attempted : Attempted pr op none op own :=
  ⟨h, .refl, nofun⟩

theorem safe_allocate (port : Nat) :
    Safe (port_tokens pr)
      (fun r own' => Attempted pr op (r.1.toOption.map fun _ => port) r.2 own') own
      (op.allocate port) := by
  unfold allocate
  cases hdry : op.dry_run with
  | true =>
    refine .seq (safe_call_has fun has => ?_)
    split_ifs
    · exact h.attempted
    · exact attempted_took (h.took_dry hdry port own)
  | false =>
    refine .seq (safe_call_allocate (fun hin hnew => ?_) fun _ => ?_)
    · exact attempted_took (h.took hdry hin hnew)
    · exact h.attempted

theorem safe_allocate_next : Safe (port_tokens pr) (fun r own' => Attempted pr op r.1.toOption r.2 own') own
      op.allocate_next := by
  unfold allocate_next
  cases hdry : op.dry_run with
  | true => exact attempted_took (h.took_dry hdry _ own)
  | false =>
    refine .seq (safe_call_allocate_next (fun port hin hnew => ?_) fun _ => ?_)
    · exact attempted_took (h.took hdry hin hnew)
    · exact h.attempted

theorem Running.safe_settle_failed :
    Safe (port_tokens pr) (fun _ _ => True) own (op.settle false) := h.safe_rollback

theorem Running.safe_settle_dry (hdry : op.dry_run = true) (success : Bool) :
    Safe (port_tokens pr) (fun _ _ => True) own (op.settle success) := by
  have hcommit : op.commit = pure op := if_pos hdry
  unfold settle
  rw [hcommit, ite_self]
  exact h.safe_rollback

end PortAllocationOperation

end ServicePorts
