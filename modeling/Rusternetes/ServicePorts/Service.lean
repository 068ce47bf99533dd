import Rusternetes.Allocator.Ports

/-! # Services and Their Node Ports

    The fields of a Service that decide which node ports it holds, and what the
    Service strategy does to them on the way to the storage.
-/

open Allocator Common Framework Registry

namespace ServicePorts

inductive ServiceType where
  | ClusterIP
  | NodePort
  | LoadBalancer
  | ExternalName
  | Unknown (v : String)
  deriving DecidableEq

inductive ServiceExternalTrafficPolicy where
  | Cluster
  | Local
  | Unknown (v : String)
  deriving DecidableEq

structure ServicePort where
  port : UInt16
  protocol : String
  node_port : Option UInt16
  deriving DecidableEq

/-- `Service`, with the fields of `ServiceSpec` that bear on node ports. -/
structure Service where
  name : String
  ports : List ServicePort
  service_type : Option ServiceType
  external_ips : Option (List String)
  external_traffic_policy : Option ServiceExternalTrafficPolicy
  health_check_node_port : Option Int32
  allocate_load_balancer_node_ports : Option Bool
  deriving DecidableEq

/-- `i32 as usize`. -/
def as_usize (x : Int) : Nat := (x % 2 ^ 64).toNat

theorem as_usize_natCast {n : Nat} (h : n < 65536) : as_usize n = n := by
  unfold as_usize
  omega

/-! ### Which ports a Service holds -/

def is_node_port_type (t : Option ServiceType) : Bool :=
  t == some .NodePort || t == some .LoadBalancer

def needs_health_check (service : Service) : Bool :=
  service.service_type == some .LoadBalancer && service.external_traffic_policy == some .Local

def should_allocate_node_ports (service : Service) : Bool :=
  match service.service_type with
  | some .NodePort => true
  | some .LoadBalancer => service.allocate_load_balancer_node_ports.getD true
  | _ => false

def node_port (p : Option UInt16) : Nat := (p.map UInt16.toNat).getD 0

def find_requested_node_port (port : UInt16) (service : Service) : Nat :=
  match service.ports.find? fun p => p.port == port && node_port p.node_port != 0 with
  | some p => node_port p.node_port
  | none => 0

def collect_service_node_ports (service : Service) : List Nat :=
  (service.ports.map fun p => node_port p.node_port).filter (· ≠ 0)

def health_check_node_port (service : Service) : Int :=
  (service.health_check_node_port.map Int32.toInt).getD 0

def health_check_ports (service : Service) : List Nat :=
  if needs_health_check service && decide (0 < health_check_node_port service) then
    [as_usize (health_check_node_port service)]
  else []

/-- The ports a Service holds: its node ports and its health-check node port, as
    `release_node_ports` gives them back. -/
def held_ports (service : Service) : List Nat :=
  collect_service_node_ports service ++ health_check_ports service

def set_node_port (service : Service) (i port : Nat) : Service :=
  { service with
    ports := service.ports.modify i fun p => { p with node_port := some (UInt16.ofNat port) } }

def invalid_node_port (service : Service) (i value : Nat) (err : PortError) : Error :=
  new_invalid "" "Service" service.name
    ["spec.ports[" ++ toString i ++ "].nodePort: Invalid value: " ++ toString value ++ ": " ++
      err.to_string]

/-! ### The strategy -/

/-- `same_node_ports`: the old node ports have all the new ones. -/
def same_node_ports (old new : Service) : Bool :=
  (collect_service_node_ports new).all (collect_service_node_ports old).contains

def externally_accessible (service : Service) : Bool :=
  service.service_type == some .LoadBalancer || service.service_type == some .NodePort ||
    (service.service_type == some .ClusterIP &&
      (match service.external_ips with | some ips => !ips.isEmpty | none => false))

def drop_type_dependent_fields (new old : Service) : Service :=
  let ports :=
    if is_node_port_type old.service_type && !is_node_port_type new.service_type &&
        same_node_ports old new then
      new.ports.map fun p => { p with node_port := none }
    else new.ports
  let health :=
    if needs_health_check old && !needs_health_check new &&
        decide (health_check_node_port old = health_check_node_port new) then none
    else new.health_check_node_port
  let allocate :=
    if old.service_type == some .LoadBalancer && new.service_type != some .LoadBalancer &&
        old.allocate_load_balancer_node_ports.isSome &&
        old.allocate_load_balancer_node_ports == new.allocate_load_balancer_node_ports then none
    else new.allocate_load_balancer_node_ports
  let policy :=
    if externally_accessible old && !externally_accessible new &&
        old.external_traffic_policy == new.external_traffic_policy then none
    else new.external_traffic_policy
  { new with
    ports := ports, health_check_node_port := health,
    allocate_load_balancer_node_ports := allocate, external_traffic_policy := policy }

/-- `validate_service`, the checks that bear on node ports: the type is known, a
    `ClusterIP` Service has no node ports, and there is a health-check node port
    exactly if it is needed. -/
def validate_service (service : Service) : Bool :=
  (match service.service_type with
    | none | some (.Unknown _) => false
    | some .ClusterIP => service.ports.all fun p => node_port p.node_port == 0
    | some _ => true) &&
  (if needs_health_check service then
    decide (1 ≤ health_check_node_port service ∧ health_check_node_port service ≤ 65535)
  else decide (health_check_node_port service = 0))

/-- `validate_service_update`, the checks that bear on node ports: the health-check
    node port is immutable. -/
def validate_service_update (service old : Service) : Bool :=
  !(needs_health_check old && needs_health_check service &&
    decide (health_check_node_port service ≠ health_check_node_port old)) &&
  validate_service service

/-! ### Lemmas -/

variable {service : Service}

variable {p : Nat}

theorem mem_collect :
    p ∈ collect_service_node_ports service ↔
      p ≠ 0 ∧ ∃ e ∈ service.ports, node_port e.node_port = p := by
  simp only [collect_service_node_ports, List.mem_filter, List.mem_map, decide_eq_true_eq]
  exact and_comm

/-- A port number survives the cast to `u16`. -/
theorem node_port_ofNat {n : Nat} (h : n < 65536) : node_port (some (UInt16.ofNat n)) = n := by
  simp only [node_port, Option.map_some, Option.getD_some, UInt16.toNat_ofNat']
  omega

theorem mem_health_check_ports (hvalid : validate_service service)
    (h : p ∈ health_check_ports service) :
    needs_health_check service = true ∧ health_check_node_port service = p ∧ p ≠ 0 ∧ p < 65536 := by
  unfold health_check_ports at h
  split_ifs at h with hneeds
  · simp only [Bool.and_eq_true, decide_eq_true_eq] at hneeds
    have hcheck := (Bool.and_eq_true _ _ ▸ hvalid).2
    rw [if_pos hneeds.1, decide_eq_true_eq] at hcheck
    obtain rfl := List.mem_singleton.mp h
    refine ⟨hneeds.1, ?_, ?_, ?_⟩ <;> (unfold as_usize; omega)
  · exact absurd h (List.not_mem_nil)

/-- A valid Service that is not exposed on nodes has no node ports, unless it is an
    `ExternalName`. -/
theorem collect_eq_nil (hvalid : validate_service service)
    (hname : service.service_type = some .ExternalName → collect_service_node_ports service = [])
    (htype : is_node_port_type service.service_type = false) :
    collect_service_node_ports service = [] := by
  have hcheck := (Bool.and_eq_true _ _ ▸ hvalid).1
  cases ht : service.service_type with
  | none =>
    rw [ht] at hcheck
    cases hcheck
  | some t =>
    rw [ht] at hcheck htype hname
    cases t with
    | ClusterIP =>
      simp only [List.all_eq_true, beq_iff_eq] at hcheck
      rw [List.eq_nil_iff_forall_not_mem]
      intro p hp
      obtain ⟨hne, e, he, rfl⟩ := mem_collect.mp hp
      exact hne (hcheck e he)
    | NodePort | LoadBalancer => nomatch htype
    | ExternalName => exact hname rfl
    | Unknown v => cases hcheck

/-! ### What is prepared -/

@[simp]
theorem needs_health_check_drop (new old : Service) :
    needs_health_check (drop_type_dependent_fields new old) = needs_health_check new := by
  cases hn : needs_health_check new with
  | true =>
    have hacc : externally_accessible new = true := by
      simp only [needs_health_check, Bool.and_eq_true] at hn
      simp [externally_accessible, hn.1]
    simp only [needs_health_check] at hn ⊢
    simpa only [drop_type_dependent_fields, hacc, Bool.not_true, Bool.and_false, Bool.false_and,
      Bool.false_eq_true, if_false] using hn
  | false =>
    simp only [needs_health_check, drop_type_dependent_fields, Bool.and_eq_false_iff] at hn ⊢
    rcases hn with hn | hn
    · exact .inl hn
    · right
      split_ifs
      · rfl
      · exact hn

theorem health_check_ports_drop (new old : Service) :
    health_check_ports (drop_type_dependent_fields new old) = health_check_ports new := by
  cases hn : needs_health_check new with
  | true =>
    have hsame : health_check_node_port (drop_type_dependent_fields new old) =
        health_check_node_port new := by
      simp [health_check_node_port, drop_type_dependent_fields, hn]
    rw [health_check_ports, needs_health_check_drop, hsame]
    rfl
  | false => simp [health_check_ports, needs_health_check_drop, hn]

theorem mem_health_check_ports_of_lt (hneeds : needs_health_check service = true)
    (hlt : as_usize (health_check_node_port service) < 65536)
    (hne : as_usize (health_check_node_port service) ≠ 0) :
    as_usize (health_check_node_port service) ∈ health_check_ports service := by
  have hbound : -2 ^ 31 ≤ health_check_node_port service := by
    unfold health_check_node_port
    cases service.health_check_node_port with
    | none => exact Int.neg_nonpos_of_nonneg (by decide)
    | some n => exact n.le_toInt
  have hpos : 0 < health_check_node_port service := by
    unfold as_usize at hlt hne
    omega
  simp [health_check_ports, hneeds, hpos]

theorem held_ports_ne_zero (h : p ∈ held_ports service) : p ≠ 0 := by
  rcases List.mem_append.mp h with h | h
  · exact (mem_collect.mp h).1
  · unfold health_check_ports at h
    split_ifs at h with hneeds
    · simp only [Bool.and_eq_true, decide_eq_true_eq] at hneeds
      have hbound : health_check_node_port service < 2 ^ 31 := by
        unfold health_check_node_port
        cases service.health_check_node_port with
        | none => exact Int.pow_pos (by decide)
        | some n => exact n.toInt_lt
      obtain rfl := List.mem_singleton.mp h
      unfold as_usize
      omega
    · nomatch h

end ServicePorts
