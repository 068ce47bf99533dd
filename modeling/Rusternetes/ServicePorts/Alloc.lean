import Rusternetes.ServicePorts.Operation

/-! # How a Service Claims and Frees Node Ports

    The transactions of a create, an update and a delete over a
    `PortAllocationOperation`. What a transaction leaves is said once: the ports of
    the Service are those it allocated or those of the old Service, and what it
    defers to release are ports of the old Service that the new one does not hold.
-/

open Allocator Common Framework List Registry

namespace ServicePorts

open PortAllocationOperation

/-! ### Creating -/

/-- What the loop of `init_node_ports` carries. -/
structure Init where
  service : Service
  /-- `svc_port_to_node_port`. -/
  seen : List (UInt16 × Nat)

/-- The loop body of `init_node_ports`, for the entry at `i`. -/
def init_node_port (i : Nat) (st : Init) (op : PortAllocationOperation) :
    PortProg (Except Error Init × PortAllocationOperation) :=
  match st.service.ports[i]? with
  | none => pure (.ok st, op)
  | some entry =>
    let requested := node_port entry.node_port
    let allocated := (st.seen.lookup entry.port).getD 0
    let np := find_requested_node_port entry.port st.service
    if requested = 0 ∧ should_allocate_node_ports st.service = false then
      -- no new ports, but specific requests are respected
      pure (.ok st, op)
    else if allocated = 0 then
      if np ≠ 0 then
        op.allocate np >>= fun r =>
          match r.1 with
          | .error e => pure (.error (invalid_node_port st.service i np e), r.2)
          | .ok () => pure (.ok ⟨set_node_port st.service i np, (entry.port, np) :: st.seen⟩, r.2)
      else
        op.allocate_next >>= fun r =>
          match r.1 with
          | .error e =>
            pure (.error (internal_error ("failed to allocate a nodePort: " ++ e.to_string)), r.2)
          | .ok np => pure (.ok ⟨set_node_port st.service i np, (entry.port, np) :: st.seen⟩, r.2)
    else if requested = allocated then pure (.ok st, op)
    else if requested = 0 then
      pure (.ok { st with service := set_node_port st.service i allocated }, op)
    else
      op.allocate requested >>= fun r =>
        match r.1 with
        | .error e => pure (.error (invalid_node_port st.service i requested e), r.2)
        | .ok () => pure (.ok st, r.2)

def init_node_ports (service : Service) (op : PortAllocationOperation) :
    PortProg (Except Error Service × PortAllocationOperation) :=
  Prog.try_each init_node_port (List.range service.ports.length) ⟨service, []⟩ op >>= fun r =>
    pure (r.1.map Init.service, r.2)

def alloc_health_check_node_port (service : Service) (op : PortAllocationOperation) :
    PortProg (Except String Service × PortAllocationOperation) :=
  let requested := health_check_node_port service
  if requested ≠ 0 then
    op.allocate (as_usize requested) >>= fun r =>
      match r.1 with
      | .error e =>
        pure (.error ("failed to allocate requested HealthCheck NodePort " ++ toString requested ++
          ": " ++ e.to_string), r.2)
      | .ok () => pure (.ok service, r.2)
  else
    op.allocate_next >>= fun r =>
      match r.1 with
      | .error e => pure (.error ("failed to allocate a HealthCheck NodePort 0: " ++ e.to_string), r.2)
      | .ok np => pure (.ok { service with health_check_node_port := some (Int32.ofNat np) }, r.2)

/-- What a transaction does with a step of it that failed: it is rolled back. -/
def or_rollback {ε α : Type} (wrap : ε → Error) (r : Except ε α × PortAllocationOperation)
    (next : α → PortAllocationOperation → PortProg (Except Error (Service × PortAllocationOperation))) :
    PortProg (Except Error (Service × PortAllocationOperation)) :=
  match r.1 with
  | .error e => r.2.finish >>= fun _ => pure (.error (wrap e))
  | .ok a => next a r.2

def txn_alloc_node_ports (service : Service) (dry_run : Bool) :
    PortProg (Except Error (Service × PortAllocationOperation)) :=
  (if is_node_port_type service.service_type then init_node_ports service (start dry_run)
    else pure (.ok service, start dry_run)) >>= fun r =>
  or_rollback id r fun service op =>
    (if needs_health_check service then alloc_health_check_node_port service op
      else pure (.ok service, op)) >>= fun r =>
    or_rollback internal_error r fun service op => pure (.ok (service, op))

/-! ### Updating -/

/-- What the loop of `update_node_ports` carries. -/
structure Updating where
  service : Service
  /-- Protocols and node ports. -/
  new_node_ports : List (String × Nat)
  port_allocated : List Nat

/-- The end of the loop body of `update_node_ports`: the entry must be new. -/
def Updating.record (st : Updating) (protocol : String) (np : Nat) : Except Error Updating :=
  if st.new_node_ports.contains (protocol, np) then
    .error (internal_error
      ("duplicate nodePort: \x7b" ++ protocol ++ " " ++ toString np ++ "\x7d"))
  else .ok { st with new_node_ports := st.new_node_ports ++ [(protocol, np)] }

/-- The loop body of `update_node_ports`, for the entry at `i`. -/
def update_node_port (old_numbers : List Nat) (i : Nat) (st : Updating)
    (op : PortAllocationOperation) : PortProg (Except Error Updating × PortAllocationOperation) :=
  match st.service.ports[i]? with
  | none => pure (.ok st, op)
  | some entry =>
    let np := node_port entry.node_port
    if np = 0 ∧ should_allocate_node_ports st.service = false then
      -- no new ports, but specific requests are respected
      pure (.ok st, op)
    else if np ≠ 0 then
      if np ∈ old_numbers ∨ np ∈ st.port_allocated then pure (st.record entry.protocol np, op)
      else
        op.allocate np >>= fun r =>
          match r.1 with
          | .error e => pure (.error (invalid_node_port st.service i np e), r.2)
          | .ok () =>
            pure (({ st with port_allocated := np :: st.port_allocated }).record entry.protocol np,
              r.2)
    else
      op.allocate_next >>= fun r =>
        match r.1 with
        | .error e =>
          pure (.error (internal_error ("failed to allocate a nodePort: " ++ e.to_string)), r.2)
        | .ok np =>
          pure (({ st with service := set_node_port st.service i np }).record entry.protocol np, r.2)

def update_node_ports (service old_service : Service) (op : PortAllocationOperation) :
    PortProg (Except Error Service × PortAllocationOperation) :=
  let old_numbers := collect_service_node_ports old_service
  Prog.try_each (update_node_port old_numbers) (List.range service.ports.length)
    ⟨service, [], []⟩ op >>= fun r =>
  match r.1 with
  | .error e => pure (.error e, r.2)
  | .ok st =>
    let new_numbers := collect_service_node_ports st.service
    pure (.ok st.service, r.2.defer (old_numbers.filter fun old => !new_numbers.contains old))

def update_health_check_node_port (service old_service : Service) (op : PortAllocationOperation) :
    PortProg (Except String Service × PortAllocationOperation) :=
  let needed := needs_health_check old_service
  let needs := needs_health_check service
  if needed = false ∧ needs = true then alloc_health_check_node_port service op
  else if needed = true ∧ needs = false then
    pure (.ok service, op.defer [as_usize (health_check_node_port old_service)])
  else pure (.ok service, op)

def released_by_type (service old_service : Service) : List Nat :=
  if is_node_port_type old_service.service_type &&
      (service.service_type == some .ExternalName || service.service_type == some .ClusterIP) then
    collect_service_node_ports old_service
  else []

def txn_update_node_ports (service old_service : Service) (dry_run : Bool) :
    PortProg (Except Error (Service × PortAllocationOperation)) :=
  let op := (start dry_run).defer (released_by_type service old_service)
  (if is_node_port_type service.service_type then update_node_ports service old_service op
    else pure (.ok service, op)) >>= fun r =>
  or_rollback id r fun service op =>
    update_health_check_node_port service old_service op >>= fun r =>
    or_rollback internal_error r fun service op => pure (.ok (service, op))

/-! ### Deleting -/

def release_node_ports (service : Service) : PortProg Unit := release_all (held_ports service)

/-! ### Loops -/

section loops

variable {pr : PortRange} {op op' : PortAllocationOperation} {own : Set Nat}

/-- The number was allocated, is in `base`, or is no port. -/
def Claimed (base : List Nat) (op : PortAllocationOperation) (p : Nat) : Prop :=
  p = 0 ∨ p ∈ op.allocated ∨ p ∈ base

/-- The entries outside `rest` have node ports that are claimed. -/
def Backed (base : List Nat) (op : PortAllocationOperation) (rest : List Nat) (service : Service) :
    Prop :=
  op.dry_run = false → ∀ j e, service.ports[j]? = some e → j ∉ rest →
    Claimed base op (node_port e.node_port)

theorem Claimed.extends {base : List Nat} {p : Nat} (h : Claimed base op p)
    (hext : Extends op op') : Claimed base op' p := by
  rcases h with h | h | h
  · exact .inl h
  · exact .inr (.inl (hext.allocated p h))
  · exact .inr (.inr h)

variable {i : Nat} {rest : List Nat}

theorem set_node_port_other (service : Service) {j : Nat} (port : Nat) (h : j ≠ i) :
    (set_node_port service i port).ports[j]? = service.ports[j]? := by
  simp only [set_node_port, getElem?_modify]
  cases service.ports[j]? with
  | none => rfl
  | some e => simp [Ne.symm h]

variable {service : Service}

theorem set_node_port_self {port : Nat} {e : ServicePort} (hport : port < 65536)
    (h : (set_node_port service i port).ports[i]? = some e) : node_port e.node_port = port := by
  simp only [set_node_port, getElem?_modify] at h
  obtain ⟨old, -, rfl⟩ := Option.map_eq_some_iff.mp h
  exact node_port_ofNat hport

variable {base : List Nat} (h : Backed base op (i :: rest) service)
include h

/-- The entry at `i` is settled, and the others are as they were. -/
theorem Backed.next {service' : Service} (hext : Extends op op')
    (hother : ∀ j, j ≠ i → service'.ports[j]? = service.ports[j]?)
    (hi : op'.dry_run = false → ∀ e, service'.ports[i]? = some e →
      Claimed base op' (node_port e.node_port)) : Backed base op' rest service' := by
  intro hdry j e he hj
  by_cases hji : j = i
  · subst hji
    exact hi hdry e he
  · rw [hother j hji] at he
    exact (h (hext.dry_run ▸ hdry) j e he (by simp [hji, hj])).extends hext

/-- Setting the entry at `i` to a port that was allocated. -/
theorem Backed.set {port : Nat} (hext : Extends op op') (hrun : Running pr op' own)
    (hport : port ∈ op'.allocated) :
    Backed base op' rest (set_node_port service i port) := by
  refine h.next hext (fun j hj => set_node_port_other service port hj) ?_
  intro hdry e he
  have hlt : port < 65536 := PortRange.contains_lt (hrun.in_range hdry port hport)
  rw [set_node_port_self hlt he]
  exact .inr (.inl hport)

/-- Leaving the entry at `i` as it is. -/
theorem Backed.keep {e : ServicePort} (hext : Extends op op') (he : service.ports[i]? = some e)
    (hclaimed : Claimed base op' (node_port e.node_port)) : Backed base op' rest service := by
  refine h.next hext (fun _ _ => rfl) ?_
  intro _ e' he'
  cases he.symm.trans he'
  exact hclaimed

theorem Backed.skip (he : service.ports[i]? = none) : Backed base op rest service := by
  refine h.next .refl (fun _ _ => rfl) ?_
  intro _ e he'
  nomatch he.symm.trans he'

omit h

/-- What holds in the loops of `init_node_ports` and `update_node_ports`. -/
structure Loop (pr : PortRange) (base : List Nat) (service₀ : Service)
    (op₀ : PortAllocationOperation) (rest : List Nat) (service : Service) (known : List Nat)
    (op : PortAllocationOperation) (own : Set Nat) : Prop where
  running : Running pr op own
  after : Extends op₀ op
  same : service = { service₀ with ports := service.ports }
  backed : Backed base op rest service
  known : ∀ p ∈ known, p ∈ op.allocated

variable {service₀ : Service} {op₀ : PortAllocationOperation}

theorem init_node_port_safe {st : Init}
    (h : Loop pr base service₀ op₀ (i :: rest) st.service (st.seen.map Prod.snd) op own) :
    Safe (port_tokens pr)
      (Outcome (fun st => Loop pr base service₀ op₀ rest st.service (st.seen.map Prod.snd))
        (Running pr)) own (init_node_port i st op) := by
  obtain ⟨hrun, hafter, hsame, hbacked, hknown⟩ := h
  -- the entry is set to a port that was just allocated, which is remembered
  have hset : ∀ {port np : _} {op' own'}, Attempted pr op (some np) op' own' →
      Loop pr base service₀ op₀ rest (set_node_port st.service i np)
        (((port, np) :: st.seen).map Prod.snd) op' own' := by
    rintro (port : UInt16) np op' own' ⟨hrun', hext, hnp⟩
    refine ⟨hrun', hafter.trans hext, ?_, hbacked.set hext hrun' (hnp np rfl), ?_⟩
    · rw [hsame]
      rfl
    · exact forall_mem_cons.mpr ⟨hnp _ rfl, fun p hp => hext.allocated p (hknown p hp)⟩
  unfold init_node_port
  cases he : st.service.ports[i]? with
  | none => exact ⟨hrun, hafter, hsame, hbacked.skip he, hknown⟩
  | some entry =>
    dsimp only
    have hmem : (st.seen.lookup entry.port).getD 0 ≠ 0 →
        (st.seen.lookup entry.port).getD 0 ∈ op.allocated := by
      intro hne
      cases hlook : st.seen.lookup entry.port with
      | none => exact absurd (by rw [hlook]; rfl) hne
      | some n =>
        obtain ⟨l₁, l₂, heq, -⟩ := lookup_eq_some_iff.mp hlook
        exact hknown n (by simp [heq])
    split_ifs with hskip hallocated hnp hequal hzero
    · exact ⟨hrun, hafter, hsame, hbacked.keep .refl he (.inl hskip.1), hknown⟩
    · refine (safe_allocate hrun _).bind ?_
      rintro ⟨result, op'⟩ own' h'
      cases result with
      | error e => exact h'.1
      | ok u => exact hset h'
    · refine (safe_allocate_next hrun).bind ?_
      rintro ⟨result, op'⟩ own' h'
      cases result with
      | error e => exact h'.1
      | ok np => exact hset h'
    · refine ⟨hrun, hafter, hsame, hbacked.keep .refl he (.inr (.inl ?_)), hknown⟩
      rw [hequal]
      exact hmem hallocated
    · refine ⟨hrun, hafter, ?_, hbacked.set .refl hrun (hmem hallocated), hknown⟩
      rw [hsame]
      rfl
    · refine (safe_allocate hrun _).bind ?_
      rintro ⟨result, op'⟩ own' ⟨hrun', hext, hok⟩
      cases result with
      | error e => exact hrun'
      | ok u =>
        refine ⟨hrun', hafter.trans hext, hsame, ?_, fun p hp => hext.allocated p (hknown p hp)⟩
        exact hbacked.keep hext he (.inr (.inl (hok _ rfl)))

theorem safe_record {st : Updating} (protocol : String) (np : Nat)
    (h : Loop pr base service₀ op₀ rest st.service st.port_allocated op own) :
    Safe (port_tokens pr)
      (Outcome (fun st => Loop pr base service₀ op₀ rest st.service st.port_allocated)
        (Running pr)) own
      (pure (st.record protocol np, op) : PortProg (Except Error Updating × _)) := by
  unfold Updating.record
  split_ifs
  · exact h.running
  · exact h

theorem update_node_port_safe {st : Updating}
    (h : Loop pr base service₀ op₀ (i :: rest) st.service st.port_allocated op own) :
    Safe (port_tokens pr)
      (Outcome (fun st => Loop pr base service₀ op₀ rest st.service st.port_allocated)
        (Running pr)) own (update_node_port base i st op) := by
  obtain ⟨hrun, hafter, hsame, hbacked, hknown⟩ := h
  unfold update_node_port
  cases he : st.service.ports[i]? with
  | none => exact ⟨hrun, hafter, hsame, hbacked.skip he, hknown⟩
  | some entry =>
    dsimp only
    split_ifs with hskip hnp hold
    · exact ⟨hrun, hafter, hsame, hbacked.keep .refl he (.inl hskip.1), hknown⟩
    · apply safe_record
      refine ⟨hrun, hafter, hsame, hbacked.keep .refl he (.inr ?_), hknown⟩
      rcases hold with hold | hold
      · exact .inr hold
      · exact .inl (hknown _ hold)
    · refine (safe_allocate hrun _).bind ?_
      rintro ⟨result, op'⟩ own' ⟨hrun', hext, hok⟩
      cases result with
      | error e => exact hrun'
      | ok u =>
        have hmem := hok _ rfl
        apply safe_record
        refine ⟨hrun', hafter.trans hext, hsame, hbacked.keep hext he (.inr (.inl hmem)), ?_⟩
        exact forall_mem_cons.mpr ⟨hmem, fun p hp => hext.allocated p (hknown p hp)⟩
    · refine (safe_allocate_next hrun).bind ?_
      rintro ⟨result, op'⟩ own' ⟨hrun', hext, hok⟩
      cases result with
      | error e => exact hrun'
      | ok np =>
        apply safe_record
        refine ⟨hrun', hafter.trans hext, ?_, hbacked.set hext hrun' (hok np rfl),
          fun p hp => hext.allocated p (hknown p hp)⟩
        show set_node_port st.service i np = _
        rw [hsame]
        rfl

theorem loop_begins (hrun : Running pr op own) (base : List Nat) (service : Service) :
    Loop pr base service op (List.range service.ports.length) service [] op own := by
  refine ⟨hrun, .refl, rfl, ?_, nofun⟩
  intro _ j e he hj
  have hlt : j < service.ports.length := (List.getElem?_eq_some_iff.mp he).1
  exact absurd (mem_range.mpr hlt) hj

structure Looped (pr : PortRange) (base : List Nat) (service₀ : Service)
    (op₀ : PortAllocationOperation) (service : Service) (op : PortAllocationOperation)
    (own : Set Nat) : Prop where
  running : Running pr op own
  after : Extends op₀ op
  same : service = { service₀ with ports := service.ports }
  claimed : op.dry_run = false → ∀ p ∈ collect_service_node_ports service,
    p ∈ op.allocated ∨ p ∈ base

theorem Loop.looped {known : List Nat} (h : Loop pr base service₀ op₀ [] service known op own) :
    Looped pr base service₀ op₀ service op own := by
  refine ⟨h.running, h.after, h.same, ?_⟩
  intro hdry p hp
  obtain ⟨hne, e, he, rfl⟩ := mem_collect.mp hp
  obtain ⟨j, hj⟩ := getElem?_of_mem he
  rcases h.backed hdry j e hj (by simp) with hzero | hclaimed
  · exact absurd hzero hne
  · exact hclaimed

theorem init_node_ports_safe (hrun : Running pr op own) (service : Service) :
    Safe (port_tokens pr) (Outcome (Looped pr [] service op) (Running pr)) own (init_node_ports service op) := by
  have hloop := safe_try_each
    (I := fun rest (st : Init) => Loop pr [] service op rest st.service (st.seen.map Prod.snd))
    (E := Running pr) (fun i rest st op' own' h => init_node_port_safe h)
    (range service.ports.length) ⟨service, []⟩ op own (loop_begins hrun [] service)
  refine hloop.bind ?_
  rintro ⟨result, op'⟩ own' h'
  cases result with
  | error e => exact h'
  | ok st => exact h'.looped

theorem update_node_ports_safe (hrun : Running pr op own) (service old_service : Service) :
    Safe (port_tokens pr)
      (Outcome (fun service' op' own' => ∃ op₁,
        Looped pr (collect_service_node_ports old_service) service op service' op₁ own' ∧
        op' = op₁.defer ((collect_service_node_ports old_service).filter
          fun old => !(collect_service_node_ports service').contains old)) (Running pr)) own
      (update_node_ports service old_service op) := by
  have hloop := safe_try_each
    (I := fun rest (st : Updating) => Loop pr (collect_service_node_ports old_service) service op
      rest st.service st.port_allocated)
    (E := Running pr) (fun i rest st op' own' h => update_node_port_safe h)
    (range service.ports.length) ⟨service, [], []⟩ op own (loop_begins hrun _ service)
  refine hloop.bind ?_
  rintro ⟨result, op'⟩ own' h'
  cases result with
  | error e => exact h'
  | ok st => exact ⟨op', h'.looped, rfl⟩

structure HealthAllocated (pr : PortRange) (service₀ : Service) (op₀ : PortAllocationOperation)
    (service : Service) (op : PortAllocationOperation) (own : Set Nat) : Prop where
  running : Running pr op own
  after : Extends op₀ op
  same : service = { service₀ with health_check_node_port := service.health_check_node_port }
  claimed : op.dry_run = false → ∀ p ∈ health_check_ports service, p ∈ op.allocated

theorem mem_health_check_ports_eq {p : Nat} (h : p ∈ health_check_ports service) :
    p = as_usize (health_check_node_port service) := by
  unfold health_check_ports at h
  split_ifs at h
  · exact mem_singleton.mp h
  · nomatch h

theorem alloc_health_check_safe (hrun : Running pr op own) (service : Service) :
    Safe (port_tokens pr) (Outcome (HealthAllocated pr service op) (Running pr)) own
      (alloc_health_check_node_port service op) := by
  unfold alloc_health_check_node_port
  dsimp only
  split_ifs
  · refine (safe_allocate hrun _).bind ?_
    rintro ⟨result, op'⟩ own' ⟨hrun', hext, hok⟩
    cases result with
    | error e => exact hrun'
    | ok u =>
      refine ⟨hrun', hext, rfl, ?_⟩
      intro _ p hp
      rw [mem_health_check_ports_eq hp]
      exact hok _ rfl
  · refine (safe_allocate_next hrun).bind ?_
    rintro ⟨result, op'⟩ own' ⟨hrun', hext, hok⟩
    cases result with
    | error e => exact hrun'
    | ok np =>
      refine ⟨hrun', hext, rfl, ?_⟩
      intro hdry p hp
      have hlt : np < 65536 := PortRange.contains_lt (hrun'.in_range hdry np (hok np rfl))
      rw [mem_health_check_ports_eq hp]
      show as_usize (Int32.ofNat np).toInt ∈ op'.allocated
      rw [Int32.toInt_ofNat_of_lt (by omega), as_usize_natCast hlt]
      exact hok np rfl

end loops

/-! ### Transactions -/

section transactions

def old_ports (old : Option Service) : List Nat :=
  (old.map collect_service_node_ports).getD []

def old_needs (old : Option Service) : Bool := (old.map needs_health_check).getD false

def health_released (old : Option Service) (service : Service) : List Nat :=
  match old with
  | none => []
  | some o =>
    if needs_health_check o = true ∧ needs_health_check service = false then
      [as_usize (health_check_node_port o)]
    else []

/-- What a transaction leaves, `old` being the Service that is replaced. -/
structure Left (pr : PortRange) (old : Option Service) (service : Service)
    (op : PortAllocationOperation) (own : Set Nat) : Prop where
  running : Running pr op own
  ports : op.dry_run = false → is_node_port_type service.service_type = true →
    ∀ p ∈ collect_service_node_ports service, p ∈ op.allocated ∨ p ∈ old_ports old
  health : op.dry_run = false → old_needs old = false →
    ∀ p ∈ health_check_ports service, p ∈ op.allocated
  deferred : ∃ rel, op.release_deferred = rel ++ health_released old service ∧
    rel.Sublist (old_ports old) ∧
    (is_node_port_type service.service_type = true →
      ∀ p ∈ rel, p ∉ collect_service_node_ports service)

/-- What holds when a transaction is over. -/
def TxnPost (pr : PortRange) (old : Option Service)
    (result : Except Error (Service × PortAllocationOperation)) (own : Set Nat) : Prop :=
  match result with
  | .ok (service, op) => Left pr old service op own
  | .error _ => True

variable {pr : PortRange} {op : PortAllocationOperation} {own : Set Nat} {old : Option Service}

theorem safe_or_rollback {ε α : Type} {ok : α → PortAllocationOperation → Set Nat → Prop}
    {wrap : ε → Error} {r : Except ε α × PortAllocationOperation}
    {next : α → PortAllocationOperation → PortProg (Except Error (Service × PortAllocationOperation))}
    (h : Outcome ok (Running pr) r own)
    (hnext : ∀ a op own, ok a op own → Safe (port_tokens pr) (TxnPost pr old) own (next a op)) :
    Safe (port_tokens pr) (TxnPost pr old) own (or_rollback wrap r next) := by
  obtain ⟨result, op⟩ := r
  cases result with
  | error e => exact (Running.safe_rollback h).bind fun _ _ _ => safe_ret trivial
  | ok a => exact hnext a op own h

theorem running_start (pr : PortRange) (dry_run : Bool) (own : Set Nat) :
    Running pr (start dry_run) own :=
  ⟨rfl, fun _ => ⟨nofun, .nil⟩,
    nofun⟩

variable {service : Service}

theorem health_check_ports_not_needed (h : needs_health_check service = false) :
    health_check_ports service = [] := by
  simp [health_check_ports, h]

/-- The part of a transaction before the health-check node port. -/
structure PortsDone (pr : PortRange) (old : Option Service) (service : Service)
    (op : PortAllocationOperation) (own : Set Nat) : Prop where
  running : Running pr op own
  ports : op.dry_run = false → is_node_port_type service.service_type = true →
    ∀ p ∈ collect_service_node_ports service, p ∈ op.allocated ∨ p ∈ old_ports old
  deferred : op.release_deferred.Sublist (old_ports old) ∧
    (is_node_port_type service.service_type = true →
      ∀ p ∈ op.release_deferred, p ∉ collect_service_node_ports service)

theorem PortsDone.left_allocated {service' : Service} {op' : PortAllocationOperation}
    {own' : Set Nat} (h : PortsDone pr old service op own)
    (h' : HealthAllocated pr service op service' op' own')
    (hreleased : health_released old service' = []) : Left pr old service' op' own' := by
  have htype : service'.service_type = service.service_type := by rw [h'.same]
  have hcollect : collect_service_node_ports service' = collect_service_node_ports service := by
    rw [h'.same]
    rfl
  refine ⟨h'.running, ?_, fun hdry _ => h'.claimed hdry, op'.release_deferred, ?_, ?_, ?_⟩
  · intro hdry hnp p hp
    rw [htype] at hnp
    rw [hcollect] at hp
    rcases h.ports (h'.after.dry_run ▸ hdry) hnp p hp with hp | hp
    · exact .inl (h'.after.allocated p hp)
    · exact .inr hp
  · rw [hreleased, append_nil]
  · rw [h'.after.release_deferred]
    exact h.deferred.1
  · rw [htype, hcollect, h'.after.release_deferred]
    exact h.deferred.2

theorem PortsDone.left_same (h : PortsDone pr old service op own)
    (hneeds : needs_health_check service = true → old_needs old = true) :
    Left pr old service (op.defer (health_released old service)) own := by
  refine ⟨h.running.defer _, h.ports, ?_, op.release_deferred, rfl, h.deferred.1, h.deferred.2⟩
  intro _ hold p hp
  cases hn : needs_health_check service with
  | true => nomatch hold.symm.trans (hneeds hn)
  | false =>
    rw [health_check_ports_not_needed hn] at hp
    nomatch hp

theorem txn_alloc_safe (service : Service) (dry_run : Bool) (own : Set Nat) :
    Safe (port_tokens pr) (TxnPost pr none) own (txn_alloc_node_ports service dry_run) := by
  have hrun := running_start pr dry_run own
  have hports : Safe (port_tokens pr) (Outcome (PortsDone pr none) (Running pr)) own
      (if is_node_port_type service.service_type then init_node_ports service (start dry_run)
        else pure (.ok service, start dry_run)) := by
    split_ifs with hnp
    · refine (init_node_ports_safe hrun service).mono ?_
      rintro ⟨result, op⟩ own' h
      cases result with
      | error e => exact h
      | ok =>
        have hempty : op.release_deferred = [] := h.after.release_deferred
        refine ⟨h.running, fun hdry _ p hp => h.claimed hdry p hp, ?_, ?_⟩
        · rw [hempty]
          exact nil_sublist _
        · rw [hempty]
          exact nofun
    · exact ⟨hrun, fun _ h => absurd h hnp, nil_sublist _,
        nofun⟩
  refine hports.bind fun r own' hr => safe_or_rollback hr ?_
  intro service' op' own'' hdone
  have hhealth : Safe (port_tokens pr) (Outcome (Left pr none) (Running pr)) own''
      (if needs_health_check service' then alloc_health_check_node_port service' op'
        else pure (.ok service', op')) := by
    split_ifs with hneeds
    · refine (alloc_health_check_safe hdone.running service').mono ?_
      rintro ⟨result, op⟩ own' h
      cases result with
      | error e => exact h
      | ok => exact hdone.left_allocated h rfl
    · have hsame := hdone.left_same fun h => absurd h hneeds
      rw [health_released, defer_nil] at hsame
      exact hsame
  exact hhealth.bind fun r own₃ hr => safe_or_rollback hr fun a op own h => safe_ret h

theorem released_by_type_sublist (service old_service : Service) :
    (released_by_type service old_service).Sublist (collect_service_node_ports old_service) := by
  unfold released_by_type
  split_ifs
  · exact .refl _
  · exact nil_sublist _

theorem txn_update_safe (service old_service : Service) (dry_run : Bool) (own : Set Nat) :
    Safe (port_tokens pr) (TxnPost pr (some old_service)) own
      (txn_update_node_ports service old_service dry_run) := by
  have hrun : Running pr ((start dry_run).defer (released_by_type service old_service)) own :=
    (running_start pr dry_run own).defer _
  have hports : Safe (port_tokens pr) (Outcome (PortsDone pr (some old_service)) (Running pr)) own
      (if is_node_port_type service.service_type then
        update_node_ports service old_service
          ((start dry_run).defer (released_by_type service old_service))
        else pure (.ok service, (start dry_run).defer (released_by_type service old_service))) := by
    split_ifs with hnp
    · refine (update_node_ports_safe hrun service old_service).mono ?_
      rintro ⟨result, op⟩ own' h
      cases result with
      | error e => exact h
      | ok =>
        obtain ⟨op₁, h, rfl⟩ := h
        -- nothing but the old ports that are gone is deferred
        have hdeferred : op₁.release_deferred = [] := by
          rw [h.after.release_deferred]
          show released_by_type service old_service = []
          rw [is_node_port_type, Bool.or_eq_true, beq_iff_eq, beq_iff_eq] at hnp
          unfold released_by_type
          rcases hnp with h | h <;> simp [h]
        refine ⟨h.running.defer _, fun hdry _ => h.claimed hdry, ?_, ?_⟩
        · show (op₁.release_deferred ++ _).Sublist _
          rw [hdeferred, nil_append]
          exact filter_sublist
        · intro _ p hp
          change p ∈ op₁.release_deferred ++ _ at hp
          rw [hdeferred, nil_append] at hp
          simpa using (mem_filter.mp hp).2
    · exact ⟨hrun, fun _ h => absurd h hnp, released_by_type_sublist service old_service,
        fun h => absurd h hnp⟩
  refine hports.bind fun r own' hr => safe_or_rollback hr ?_
  intro service' op' own'' hdone
  have hhealth : Safe (port_tokens pr) (Outcome (Left pr (some old_service)) (Running pr)) own''
      (update_health_check_node_port service' old_service op') := by
    unfold update_health_check_node_port
    dsimp only
    split_ifs with hnew hgone
    · refine (alloc_health_check_safe hdone.running service').mono ?_
      rintro ⟨result, op⟩ own' h
      cases result with
      | error e => exact h
      | ok =>
        refine hdone.left_allocated h ?_
        simp [health_released, hnew.1]
    · have hsame := hdone.left_same fun _ => hgone.1
      simp only [health_released, hgone, and_self, if_true] at hsame
      exact hsame
    · have hneeds : needs_health_check service' = true → old_needs (some old_service) = true := by
        intro hn
        by_contra hold
        exact hnew ⟨by simpa [old_needs] using hold, hn⟩
      have hsame := hdone.left_same hneeds
      simp only [health_released, if_neg hgone, defer_nil] at hsame
      exact hsame
  exact hhealth.bind fun r own₃ hr => safe_or_rollback hr fun a op own h => safe_ret h

end transactions

end ServicePorts
