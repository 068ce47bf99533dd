import Rusternetes.ServicePorts.System

/-! # No Port Is Held Twice

    Every port in use has at most one owner: a stored Service owns the ports it holds,
    and a request owns what it allocated and has not handed over. A write hands ports
    from the request to the stored Service and the other way round.

    Three things break this, and are kept out of the runs below: a list of ports to
    release that names one twice, a commit of deferred releases before the write, and
    an `ExternalName` Service with node ports, which nobody allocates.
-/

open Allocator Common Framework Function LTS List Set

namespace ServicePorts

open PortAllocationOperation

variable {κ ρ : Type}

/-! ### What is written -/

def Task.old_service (task : Task κ) : Option Service := task.old.map Versioned.value

def old_held (old : Option Service) : List Nat := (old.map held_ports).getD []

def old_health (old : Option Service) : List Nat := (old.map health_check_ports).getD []

/-- What is known of a Service `w` that is written for `service`. -/
structure Written (old : Option Service) (service w : Service) : Prop where
  ports : is_node_port_type service.service_type = true →
    collect_service_node_ports w = collect_service_node_ports service
  no_ports : is_node_port_type service.service_type = false → collect_service_node_ports w = []
  health : health_check_ports w = health_check_ports service
  valid : validate_service w = true
  kept : old_needs old = true → ∀ p ∈ health_check_ports w, p ∈ old_health old

theorem written_of_valid {task : Task κ} {service : Service}
    (hvalid : task.valid (task.prepared service) = true)
    (hname : (task.prepared service).service_type = some .ExternalName →
      collect_service_node_ports (task.prepared service) = []) :
    Written task.old_service service (task.prepared service) := by
  obtain ⟨key, old⟩ := task
  cases old with
  | none =>
    have hv : validate_service service = true := hvalid
    exact ⟨fun _ => rfl, fun h => collect_eq_nil hv hname h, rfl, hv,
      nofun⟩
  | some o =>
    simp only [Task.valid, Task.prepared, validate_service_update, Bool.and_eq_true] at hvalid hname
    obtain ⟨himmutable, hv⟩ := hvalid
    refine ⟨fun h => ?_, fun h => collect_eq_nil hv hname h,
      health_check_ports_drop service o.value, hv, ?_⟩
    · simp [Task.prepared, collect_service_node_ports, drop_type_dependent_fields, h]
    intro hneeds p hp
    -- the health-check node port is that of the old Service
    obtain ⟨hn, hport, hne, hlt⟩ := mem_health_check_ports hv hp
    have hsame : health_check_node_port (Task.prepared ⟨key, some o⟩ service) =
        health_check_node_port o.value := by
      have hold : needs_health_check o.value = true := hneeds
      have hn' : needs_health_check (drop_type_dependent_fields service o.value) = true := hn
      simp only [hold, hn', Bool.true_and, Bool.not_eq_true'] at himmutable
      exact not_not.mp (of_decide_eq_false himmutable)
    have hp' : p = as_usize (health_check_node_port o.value) := by
      rw [← hsame]
      exact mem_health_check_ports_eq hp
    rw [hp']
    exact mem_health_check_ports_of_lt hneeds (hp' ▸ hlt) (hp' ▸ hne)

section left

variable {pr : PortRange} {old : Option Service} {service w : Service}
  {op : PortAllocationOperation} {own : Set Nat} {p : Nat}

theorem Running.owned (h : Running pr op own) (hdry : op.dry_run = false) (hp : p ∈ op.allocated)
    (hne : p ≠ 0) : p ∈ own :=
  (h.owns hdry).1 p hp ⟨h.in_range hdry p hp, hne⟩

theorem mem_old_held_of_mem_old_ports (h : p ∈ old_ports old) : p ∈ old_held old := by
  cases old with
  | none => exact h
  | some o => exact mem_append_left _ h

theorem mem_old_held_of_mem_old_health (h : p ∈ old_health old) : p ∈ old_held old := by
  cases old with
  | none => exact h
  | some o => exact mem_append_right _ h

variable (h : Left pr old service op own) (hw : Written old service w) (hdry : op.dry_run = false)
include h hw hdry

theorem Left.node_port_cases (hp : p ∈ collect_service_node_ports w) :
    p ∈ own ∨ p ∈ old_ports old := by
  cases hnp : is_node_port_type service.service_type with
  | true =>
    have hne := (mem_collect.mp hp).1
    rw [hw.ports hnp] at hp
    rcases h.ports hdry hnp p hp with hp | hp
    · exact .inl (Running.owned h.running hdry hp hne)
    · exact .inr hp
  | false =>
    rw [hw.no_ports hnp] at hp
    nomatch hp

theorem Left.health_port_cases (hp : p ∈ health_check_ports w) : p ∈ own ∨ p ∈ old_health old := by
  cases hold : old_needs old with
  | true => exact .inr (hw.kept hold p hp)
  | false =>
    have hne := (mem_health_check_ports hw.valid hp).2.2.1
    rw [hw.health] at hp
    exact .inl (Running.owned h.running hdry (h.health hdry hold p hp) hne)

/-- The ports of what is written are owned, by the request or by the Service that is
    replaced. -/
theorem Left.grounded (hp : p ∈ held_ports w) : p ∈ own ∨ p ∈ old_held old := by
  rcases mem_append.mp hp with hp | hp
  · rcases h.node_port_cases hw hdry hp with hp | hp
    · exact .inl hp
    · exact .inr (mem_old_held_of_mem_old_ports hp)
  · rcases h.health_port_cases hw hdry hp with hp | hp
    · exact .inl hp
    · exact .inr (mem_old_held_of_mem_old_health hp)

omit h hw hdry

variable {o : Service}

theorem not_mem_health_of_nodup (hdistinct : (held_ports o).Nodup)
    (hp : p ∈ collect_service_node_ports o) : p ∉ health_check_ports o :=
  fun hp' => (nodup_append.mp hdistinct).2.2 p hp p hp' rfl

theorem mem_health_of_released (hp : p ∈ health_released (some o) service) (htok : pr.IsToken p) :
    p ∈ health_check_ports o ∧ needs_health_check service = false := by
  simp only [health_released] at hp
  split_ifs at hp with hneeds
  · obtain rfl := mem_singleton.mp hp
    exact ⟨mem_health_check_ports_of_lt hneeds.1 (PortRange.contains_lt htok.1) htok.2, hneeds.2⟩
  · cases hp

theorem Left.deferred_gone (h : Left pr (some o) service op own) (hw : Written (some o) service w)
    (hdry : op.dry_run = false) (hdistinct : (held_ports o).Nodup)
    (hapart : ∀ p ∈ held_ports o, p ∉ own) (hp : p ∈ op.release_deferred) (htok : pr.IsToken p) :
    p ∈ held_ports o ∧ p ∉ held_ports w := by
  obtain ⟨rel, hrel, hsub, hgone⟩ := h.deferred
  rw [hrel] at hp
  rcases mem_append.mp hp with hp | hp
  · -- a node port
    have hpo : p ∈ collect_service_node_ports o := hsub.subset hp
    have hheld : p ∈ held_ports o := mem_append_left _ hpo
    refine ⟨hheld, fun hpw => ?_⟩
    rcases mem_append.mp hpw with hpw | hpw
    · cases hnp : is_node_port_type service.service_type with
      | true => exact hgone hnp p hp (hw.ports hnp ▸ hpw)
      | false =>
        rw [hw.no_ports hnp] at hpw
        nomatch hpw
    · rcases h.health_port_cases hw hdry hpw with hown | hpo'
      · exact hapart p hheld hown
      · exact not_mem_health_of_nodup hdistinct hpo hpo'
  · -- the health-check node port
    obtain ⟨hpo, hneeds⟩ := mem_health_of_released hp htok
    have hheld : p ∈ held_ports o := mem_append_right _ hpo
    refine ⟨hheld, fun hpw => ?_⟩
    rcases mem_append.mp hpw with hpw | hpw
    · rcases h.node_port_cases hw hdry hpw with hown | hold
      · exact hapart p hheld hown
      · exact not_mem_health_of_nodup hdistinct hold hpo
    · rw [hw.health, health_check_ports_not_needed hneeds] at hpw
      nomatch hpw

theorem Left.owns_deferred (h : Left pr (some o) service op own) (hw : Written (some o) service w)
    (hdry : op.dry_run = false) (hdistinct : (held_ports o).Nodup)
    (hapart : ∀ p ∈ held_ports o, p ∉ own) {own' : Set Nat}
    (hown' : ∀ p ∈ held_ports o, p ∉ held_ports w → p ∈ own') :
    Owns pr own' op.release_deferred := by
  refine ⟨?_, ?_⟩
  · intro p hp htok
    obtain ⟨hheld, hgone⟩ := h.deferred_gone hw hdry hdistinct hapart hp htok
    exact hown' p hheld hgone
  · obtain ⟨rel, hrel, hsub, _⟩ := h.deferred
    rw [hrel]
    refine pairwise_append.mpr ⟨?_, ?_, ?_⟩
    · have hnodup : rel.Nodup := hsub.nodup (nodup_append.mp hdistinct).1
      exact Pairwise.imp (fun {p q} (hne : p ≠ q) (_ : pr.IsToken p) => hne) hnodup
    · simp only [health_released]
      split_ifs
      · exact pairwise_singleton _ _
      · exact .nil
    · rintro p hp q hq htok rfl
      exact not_mem_health_of_nodup hdistinct (hsub.subset hp)
        (mem_health_of_released hq htok).1

end left

/-! ### The owners -/

/-- What a request replaces was stored at some time. -/
def Task.Known (task : Task κ) (stored : κ → Cell Service) : Prop :=
  ∀ v, task.old = some v → (stored task.key).Recorded v

def Phase.Holds (pr : PortRange) (stored : κ → Cell Service) (own : Set Nat) : Phase κ → Prop
  | .idle => True
  | .allocating task prog =>
    task.Known stored ∧ Safe (port_tokens pr) (TxnPost pr task.old_service) own prog
  | .settling prog none => Safe (port_tokens pr) (fun _ _ => True) own prog
  | .settling prog (some (task, w)) => task.Known stored ∧
      Safe (port_tokens pr)
        (fun _ own' => ∀ p ∈ held_ports w, p ∈ own' ∨ p ∈ old_held task.old_service) own prog

/-- The owners of the ports: the stored Services and the requests. -/
structure Owned (s : State κ ρ) (own : κ ⊕ ρ → Set Nat) : Prop where
  apart : Apart s.pa.in_use own
  stored : ∀ k v, (s.stored k).content = some v → ∀ p ∈ held_ports v.value, p ∈ own (.inl k)
  holds : ∀ r, (s.phase r).Holds s.pa.port_range s.stored (own (.inr r))

theorem Task.Known.next [DecidableEq κ] {task : Task κ} {stored : κ → Cell Service}
    (h : task.Known stored) {k : κ} {c : Cell Service} (hn : Cell.Next (stored k) c) :
    task.Known (Function.update stored k c) := by
  intro v hv
  by_cases hk : task.key = k
  · rw [hk, update_self]
    exact (hk ▸ h v hv).next hn
  · rw [update_of_ne hk]
    exact h v hv

theorem Phase.Holds.next [DecidableEq κ] {pr : PortRange} {stored : κ → Cell Service}
    {own : Set Nat} {phase : Phase κ} (h : phase.Holds pr stored own) {k : κ} {c : Cell Service}
    (hn : Cell.Next (stored k) c) : phase.Holds pr (Function.update stored k c) own := by
  match phase with
  | .idle => exact trivial
  | .allocating _ _ | .settling _ (some _) => exact ⟨h.1.next hn, h.2⟩
  | .settling prog none => exact h

section steps

variable {s : State κ ρ} {own : κ ⊕ ρ → Set Nat} {r : ρ} {phase : Phase κ}

theorem Owned.go [DecidableEq ρ] (h : Owned s own)
    (hphase : phase.Holds s.pa.port_range s.stored (own (.inr r))) : Owned (s.go r phase) own := by
  refine ⟨h.apart, h.stored, ?_⟩
  refine (forall_update_iff s.phase fun r' phase =>
    phase.Holds s.pa.port_range s.stored (own (.inr r'))).mpr ⟨hphase, ?_⟩
  exact fun r' _ => h.holds r'

theorem Phase.Holds.call {pr : PortRange} {stored : κ → Cell Service} {own : Set Nat}
    (h : phase.Holds pr stored own) {op : PortOp} {k : op.Ans → Phase κ}
    (hcall : phase.call = some ⟨op, k⟩) :
    (port_tokens pr).spends op ⊆ own ∧
      ∀ ans, (port_tokens pr).may op ans → Disjoint ((port_tokens pr).earns op ans) own →
        (k ans).Holds pr stored ((port_tokens pr).after own op ans) := by
  match phase with
  | .idle | .allocating _ (.ret _) | .settling (.ret _) _ => cases hcall
  | .allocating _ (.call _ _) | .settling (.call _ _) (some _) =>
    cases hcall
    exact ⟨h.2.1, fun ans hmay hnew => ⟨h.1, h.2.2 ans hmay hnew⟩⟩
  | .settling (.call _ _) none =>
    cases hcall
    exact ⟨h.1, fun ans hmay hnew => h.2 ans hmay hnew⟩

variable {task : Task κ}

/-- The Service that a request replaces is still there. -/
theorem current_old (hknown : task.Known s.stored) (h : s.current task = true) :
    (s.stored task.key).content = task.old := by
  have hrev : (s.stored task.key).content.map Versioned.revision =
      task.old.map Versioned.revision := eq_of_beq h
  cases hold : task.old with
  | none =>
    rw [hold] at hrev
    exact Option.map_eq_none_iff.mp hrev
  | some v =>
    rw [hold] at hrev
    obtain ⟨v', hv', heq⟩ := Option.map_eq_some_iff.mp hrev
    rw [hv', (hknown v hold).eq_of_revision_eq hv' heq.symm]

theorem mem_own_of_old_held (h : Owned s own) {p : Nat}
    (hcontent : (s.stored task.key).content = task.old) (hp : p ∈ old_held task.old_service) :
    p ∈ own (.inl task.key) := by
  unfold Task.old_service at hp
  cases hold : task.old with
  | none =>
    rw [hold] at hp
    nomatch hp
  | some v =>
    rw [hold] at hp
    exact h.stored task.key v (hcontent.trans hold) p hp

variable [DecidableEq κ] [DecidableEq ρ]

theorem Owned.share (h : Owned s own) {k : κ} {c : Cell Service} {a b : Set Nat}
    (hn : Cell.Next (s.stored k) c) (ha : a ⊆ own (.inl k) ∪ own (.inr r))
    (hb : b ⊆ own (.inl k) ∪ own (.inr r)) (hab : Disjoint a b)
    (hc : ∀ v, c.content = some v → ∀ p ∈ held_ports v.value, p ∈ a)
    (hphase : phase.Holds s.pa.port_range (Function.update s.stored k c) b) :
    Owned { s.go r phase with stored := Function.update s.stored k c }
      (Function.update (Function.update own (.inl k) a) (.inr r) b) := by
  refine ⟨h.apart.share ha hb hab, ?_, ?_⟩
  · intro k' v hv p hp
    have hside : (Sum.inl k' : κ ⊕ ρ) ≠ .inr r := by simp
    rw [update_of_ne hside]
    by_cases hk : k' = k
    · subst hk
      simp only [update_self] at hv ⊢
      exact hc v hv p hp
    · simp only [update_of_ne hk] at hv
      rw [update_of_ne (fun heq => hk (Sum.inl.inj heq))]
      exact h.stored k' v hv p hp
  · intro r'
    by_cases hr : r' = r
    · subst hr
      simp only [State.go, update_self]
      exact hphase
    · have hside : (Sum.inr r' : κ ⊕ ρ) ≠ .inl k := by simp
      have hr' : (Sum.inr r' : κ ⊕ ρ) ≠ .inr r := fun heq => hr (Sum.inr.inj heq)
      simp only [State.go, update_of_ne hr, update_of_ne hr',
        update_of_ne hside]
      exact (h.holds r').next hn

/-- **A call** to the allocator. -/
theorem Owned.call (h : Owned s own) {op : PortOp} {k : op.Ans → Phase κ}
    (hcall : (s.phase r).call = some ⟨op, k⟩) (ans : Answers) :
    ∃ own', Owned { s.go r (k (s.pa.serve ans op).1) with pa := (s.pa.serve ans op).2 } own' := by
  have hserved := s.pa.serve_served ans op
  obtain ⟨hspends, hnext⟩ := (h.holds r).call hcall
  have hfresh := hserved.new.mono_right (h.apart.live (.inr r))
  refine ⟨_, h.apart.call hspends hserved.new hserved.in_use, ?_, ?_⟩
  · intro k' v hv p hp
    exact h.stored k' v hv p hp
  · intro r'
    have hrange : (s.pa.serve ans op).2.port_range = s.pa.port_range := hserved.same_range
    simp only [State.go, hrange]
    by_cases hr : r' = r
    · subst hr
      rw [update_self, update_self]
      exact hnext _ hserved.may hfresh
    · rw [update_of_ne hr, update_of_ne fun heq => hr (Sum.inr.inj heq)]
      exact h.holds r'

/-- **A delete**: the request takes over the ports of the Service. -/
theorem Owned.delete (h : Owned s own) {k : κ} {v : Versioned Service}
    (hv : (s.stored k).content = some v) (hdistinct : (held_ports v.value).Nodup) :
    ∃ own', Owned { s.go r (.settling (release_node_ports v.value) none) with
      stored := Function.update s.stored k (s.stored k).clear } own' := by
  refine ⟨_, h.share (a := ∅) (b := own (.inl k)) .clear (empty_subset _)
    subset_union_left (empty_disjoint _) ?_ ?_⟩
  · intro v' hv'
    cases hv'
  · refine safe_release_all ⟨fun p hp _ => h.stored k v hv p hp, ?_⟩
    exact Pairwise.imp (fun {p q} (hne : p ≠ q) (_ : s.pa.port_range.IsToken p) => hne)
      hdistinct

/-- **A write**: the Service gets its ports, and the request keeps the rest. -/
theorem Owned.put (h : Owned s own) {w : Service}
    (hcontent : (s.stored task.key).content = task.old)
    (hw : ∀ p ∈ held_ports w, p ∈ own (.inr r) ∨ p ∈ old_held task.old_service)
    (hphase : ∀ own', (∀ p ∈ own (.inl task.key), p ∉ held_ports w → p ∈ own') →
      phase.Holds s.pa.port_range (s.put task.key w) own') :
    ∃ own', Owned { s.go r phase with stored := s.put task.key w } own' := by
  let all := own (.inl task.key) ∪ own (.inr r)
  have hsub : {p | p ∈ held_ports w} ⊆ all := by
    intro p hp
    rcases hw p hp with hp | hp
    · exact .inr hp
    · exact .inl (mem_own_of_old_held h hcontent hp)
  refine ⟨_, h.share (a := {p | p ∈ held_ports w}) (b := all \ {p | p ∈ held_ports w}) (.put w)
    hsub sdiff_subset disjoint_sdiff_self_right ?_ ?_⟩
  · intro v hv p hp
    cases hv
    exact hp
  · exact hphase _ fun p hp hgone => ⟨.inl hp, hgone⟩

end steps

/-! ### Runs -/

section runs

/-- What is written has node ports only where they are allocated. -/
def NoStrayPorts (w : Service) : Prop :=
  w.service_type = some .ExternalName → collect_service_node_ports w = []

/-- The condition on a step: a delete, and a commit of deferred releases, is of a
    Service with distinct ports; a commit before the write defers nothing; and no
    `ExternalName` Service with node ports is written. -/
def Steady (_ : List (Label κ ρ)) (s : State κ ρ) : Label κ ρ → Prop
  | .delete _ k => ∀ v, (s.stored k).content = some v → (held_ports v.value).Nodup
  | .write r _ => ∀ task service op, s.phase r = .allocating task (.ret (.ok (service, op))) →
      NoStrayPorts (task.prepared service) ∧
      (op.release_deferred ≠ [] → ∀ o, task.old = some o → (held_ports o.value).Nodup)
  | .settle r _ => ∀ task service op, s.phase r = .allocating task (.ret (.ok (service, op))) →
      NoStrayPorts (task.prepared service) ∧ op.release_deferred = []
  | _ => True

variable {s : State κ ρ} {own : κ ⊕ ρ → Set Nat} {r : ρ} {task : Task κ} {service : Service}
  {op : PortAllocationOperation}

theorem owns_nil (pr : PortRange) (own : Set Nat) : Owns pr own [] :=
  ⟨fun _ hp => absurd hp not_mem_nil, .nil⟩

variable (h : Owned s own) (hphase : s.phase r = .allocating task (.ret (.ok (service, op))))
include h hphase

theorem Owned.left :
    task.Known s.stored ∧ Left s.pa.port_range task.old_service service op (own (.inr r)) := by
  have hr := h.holds r
  rw [hphase] at hr
  exact hr

/-- **The write after the transaction**, and the commit that follows. -/
theorem Owned.write [DecidableEq κ] [DecidableEq ρ] (accepted : Bool)
    (hstray : NoStrayPorts (task.prepared service))
    (hdistinct : op.release_deferred ≠ [] → ∀ o, task.old = some o → (held_ports o.value).Nodup) :
    ∃ own', Owned (s.write r task service op accepted) own' := by
  obtain ⟨hknown, hleft⟩ := h.left hphase
  unfold State.write
  cases hok : accepted && task.valid (task.prepared service) && s.current task with
  | false => exact ⟨own, h.go hleft.running.safe_settle_failed⟩
  | true =>
    cases hdry : op.dry_run with
    | true => exact ⟨own, h.go (hleft.running.safe_settle_dry hdry true)⟩
    | false =>
      simp only [Bool.and_eq_true] at hok
      have hw := written_of_valid hok.1.2 hstray
      have hcontent := current_old hknown hok.2
      refine h.put hcontent (fun p hp => hleft.grounded hw hdry hp) ?_
      intro own' hown'
      refine safe_settle_commit hdry ?_
      by_cases hnone : op.release_deferred = []
      · rw [hnone]
        exact owns_nil _ _
      · cases hold : task.old with
        | none =>
          -- a create defers nothing
          obtain ⟨rel, hrel, hsub, _⟩ := hleft.deferred
          simp only [Task.old_service, hold] at hrel hsub
          exact absurd (hrel.trans (by simpa [health_released] using eq_nil_of_sublist_nil hsub)) hnone
        | some o =>
          simp only [Task.old_service, hold] at hleft hw
          have hstored : ∀ p ∈ held_ports o.value, p ∈ own (.inl task.key) :=
            h.stored task.key o (hcontent.trans hold)
          refine hleft.owns_deferred hw hdry (hdistinct hnone o hold) ?_ ?_
          · intro p hp hmine
            cases h.apart.owner_eq (hstored p hp) hmine
          · intro p hp hgone
            exact hown' p (hstored p hp) hgone

/-- **A settlement before the write**. -/
theorem Owned.settle [DecidableEq ρ] (accepted : Bool)
    (hstray : NoStrayPorts (task.prepared service)) (hdeferred : op.release_deferred = []) :
    Owned (s.settle r task service op accepted) own := by
  obtain ⟨hknown, hleft⟩ := h.left hphase
  unfold State.settle
  cases hok : accepted && task.valid (task.prepared service) with
  | false => exact h.go hleft.running.safe_settle_failed
  | true =>
    cases hdry : op.dry_run with
    | true => exact h.go (hleft.running.safe_settle_dry hdry true)
    | false =>
      simp only [Bool.and_eq_true] at hok
      have hw := written_of_valid hok.2 hstray
      refine h.go ?_
      rw [settle_nothing_deferred hdry hdeferred]
      exact ⟨hknown, fun p hp => hleft.grounded hw hdry hp⟩

omit h hphase

/-- **The write of an operation that is settled**. -/
theorem Owned.store [DecidableEq κ] [DecidableEq ρ] (h : Owned s own)
    (hphase : s.phase r = .settling (.ret ()) (some (task, service))) (accepted : Bool) :
    ∃ own', Owned (s.store r task service accepted) own' := by
  have hr := h.holds r
  rw [hphase] at hr
  obtain ⟨hknown, hw⟩ := hr
  unfold State.store
  cases hok : accepted && s.current task with
  | false => exact ⟨own, h.go trivial⟩
  | true =>
    simp only [Bool.and_eq_true] at hok
    exact h.put (current_old hknown hok.2) hw fun _ _ => trivial

/-- The program of a request is as it must be. -/
theorem Task.txn_safe (pr : PortRange) (task : Task κ) (service : Service) (dry_run : Bool)
    (own : Set Nat) :
    Safe (port_tokens pr) (TxnPost pr task.old_service) own (task.txn service dry_run) := by
  obtain ⟨key, old⟩ := task
  cases old with
  | none => exact txn_alloc_safe service dry_run own
  | some o => exact txn_update_safe service o.value dry_run own

def Grants (s : State κ ρ) (r : ρ) (ans : Answers) (p : Nat) : Prop :=
  (∃ k, (s.phase r).call = some ⟨.allocate p, k⟩ ∧ (s.pa.allocate ans p).1 = .ok ()) ∨
  ∃ k, (s.phase r).call = some ⟨.allocate_next, k⟩ ∧ (s.pa.allocate_next ans).1 = .ok p

theorem Grants.not_in_use {ans : Answers} {p : Nat} (h : Grants s r ans p) : p ∉ s.pa.in_use := by
  intro hin
  rcases h with ⟨_, _, hok⟩ | ⟨_, _, hok⟩
  · have hnew := (s.pa.serve_served ans (.allocate p)).new
    simp only [PortAllocator.serve, hok] at hnew
    exact hnew.notMem_of_mem_left ⟨rfl, hin.1⟩ hin
  · have hnew := (s.pa.serve_served ans .allocate_next).new
    simp only [PortAllocator.serve, hok] at hnew
    exact hnew.notMem_of_mem_left ⟨rfl, hin.1⟩ hin

variable [DecidableEq κ] [DecidableEq ρ]

theorem inv_init (h : (service_ports κ ρ).init s) : ∃ own, Owned s own := by
  obtain ⟨hexact, hunshared, hidle⟩ := h
  let own : κ ⊕ ρ → Set Nat := fun i =>
    match i with
    | .inl k => {p | ∃ v, (s.stored k).content = some v ∧ p ∈ held_ports v.value}
    | .inr _ => ∅
  refine ⟨own, apart_of_owner_eq ?_ ?_, fun k v hv p hp => ⟨v, hv, hp⟩, fun r => ?_⟩
  · rintro (k | r)
    · rintro p ⟨v, hv, hp⟩
      have hhas : s.pa.has p = true := (hexact p).mpr ⟨k, v, hv, hp⟩
      exact ⟨⟨PortAllocator.contains_of_has hhas, held_ports_ne_zero hp⟩, hhas⟩
    · exact empty_subset _
  · rintro p (k | r) (k' | r') ⟨v, hv, hp⟩ ⟨v', hv', hp'⟩
    by_contra hne
    exact hunshared k k' v v' (fun heq => hne (congrArg Sum.inl heq)) hv hv' p hp hp'
  · rw [hidle r]
    exact trivial

theorem inv_step {tr : List (Label κ ρ)} {s' : State κ ρ} {lbl : Label κ ρ}
    (h : ∃ own, Owned s own) (hsteady : Steady tr s lbl) (hstep : (service_ports κ ρ).step s lbl s') :
    ∃ own, Owned s' own := by
  obtain ⟨own, h⟩ := h
  cases lbl with
  | create r k service dry_run =>
    obtain ⟨_, rfl⟩ := hstep
    refine ⟨own, h.go ⟨?_, Task.txn_safe _ _ service dry_run _⟩⟩
    intro v hv
    cases hv
  | update r k service dry_run =>
    obtain ⟨_, old, hold, rfl⟩ := hstep
    refine ⟨own, h.go ⟨?_, Task.txn_safe _ _ service dry_run _⟩⟩
    intro v hv
    cases hv
    exact Cell.recorded_of_content hold
  | delete r k =>
    obtain ⟨_, old, hold, rfl⟩ := hstep
    exact h.delete hold (hsteady old hold)
  | call r ans =>
    obtain ⟨op, k, hcall, rfl⟩ := hstep
    exact h.call hcall ans
  | write r accepted =>
    obtain ⟨task, service, op, hphase, rfl⟩ := hstep
    obtain ⟨hstray, hdistinct⟩ := hsteady task service op hphase
    exact h.write hphase accepted hstray hdistinct
  | settle r accepted =>
    obtain ⟨task, service, op, hphase, rfl⟩ := hstep
    obtain ⟨hstray, hdeferred⟩ := hsteady task service op hphase
    exact ⟨own, h.settle hphase accepted hstray hdeferred⟩
  | store r accepted =>
    obtain ⟨task, service, hphase, rfl⟩ := hstep
    exact h.store hphase accepted

/-- In every run whose steps meet `Steady`: the ports of a stored Service are
    allocated, no two stored Services hold one port, and no port is granted that a
    stored Service holds. -/
theorem node_ports_not_shared {tr : List (Label κ ρ)} {s : State κ ρ}
    (h : ExecWhen (service_ports κ ρ) Steady tr s) :
    (∀ k v, (s.stored k).content = some v → ∀ p ∈ held_ports v.value, s.pa.has p = true) ∧
    Unshared s.stored ∧
    ∀ r ans p, Grants s r ans p →
      ∀ k v, (s.stored k).content = some v → p ∉ held_ports v.value := by
  obtain ⟨own, hown⟩ : ∃ own, Owned s own := by
    refine h.invariant (I := fun _ s => ∃ own, Owned s own) (J := fun _ _ => True)
      (fun _ _ _ => trivial) (fun s hinit => inv_init hinit) ?_
    intro tr s lbl s' _ hI hok hstep
    exact inv_step hI hok hstep
  have hlive : ∀ k v, (s.stored k).content = some v → ∀ p ∈ held_ports v.value, p ∈ s.pa.in_use :=
    fun k v hv p hp => hown.apart.live (.inl k) (hown.stored k v hv p hp)
  refine ⟨fun k v hv p hp => (hlive k v hv p hp).2, ?_, ?_⟩
  · intro k k' v v' hne hv hv' p hp hp'
    have hsame := hown.apart.owner_eq (hown.stored k v hv p hp) (hown.stored k' v' hv' p hp')
    exact hne (Sum.inl.inj hsame)
  · intro r ans p hgrants k v hv hp
    exact hgrants.not_in_use (hlive k v hv p hp)

end runs

/-! ### A port that is released twice -/

section twice

def on_port (protocols : List String) : Service where
  name := "web"
  ports := protocols.map fun protocol => ⟨80, protocol, some 30000⟩
  service_type := some .NodePort
  external_ips := none
  external_traffic_policy := some .Cluster
  health_check_node_port := none
  allocate_load_balancer_node_ports := none

def one_allocated : PortAllocator :=
  let pa := PortAllocator.new_in_memory default_service_node_port_range
  pa.with_alloc (pa.alloc.set_bit 0 true) rfl

/-- A Service at one key. -/
def beginning (protocols : List String) : State Bool Nat where
  pa := one_allocated
  stored := fun k => if k then ⟨some ⟨on_port protocols, 1⟩, 1, by simp⟩ else ⟨none, 0, by simp⟩
  phase := fun _ => .idle

def answered : Answers := ⟨0, 0, none⟩

/-- A create of a Service on the port begins. -/
def State.asked (s : State Bool Nat) (r : Nat) (k : Bool) : State Bool Nat :=
  s.go r (.allocating ⟨k, none⟩ (Task.txn ⟨k, none⟩ (on_port ["TCP"]) false))

def State.deleted (s : State Bool Nat) (protocols : List String) : State Bool Nat :=
  { s.go 0 (.settling (release_node_ports (on_port protocols)) none) with
    stored := Function.update s.stored true (s.stored true).clear }

def State.called (s : State Bool Nat) (r : Nat) : State Bool Nat :=
  match (s.phase r).call with
  | some ⟨op, k⟩ => { s.go r (k (s.pa.serve answered op).1) with pa := (s.pa.serve answered op).2 }
  | none => s

def State.created (s : State Bool Nat) : State Bool Nat :=
  s.write 1 ⟨false, none⟩ (on_port ["TCP"]) ⟨[30000], [], true, false⟩ true

/-- A Service is deleted; after its first release another one gets the port. -/
def taken_over (protocols : List String) : State Bool Nat :=
  ((((beginning protocols).deleted protocols).called 0).asked 1 false).called 1

theorem has_one_allocated {p : Nat} : one_allocated.has p = true ↔ p = 30000 := by
  constructor
  · intro h
    cases hp : one_allocated.contains p with
    | none =>
      simp only [PortAllocator.has, hp] at h
      cases h
    | some offset =>
      rw [PortAllocator.has_of_contains hp] at h
      have hempty : (PortAllocator.new_in_memory default_service_node_port_range).alloc.bit offset =
          false := by
        simp [PortAllocator.new_in_memory, AllocationBitmap.with_offset, AllocationBitmap.bit,
          Words.bit]
      have hbit := (AllocationBitmap.bit_set_bit _ 0 offset true).symm.trans h
      rw [hempty] at hbit
      have hzero : offset = 0 := by simpa using hbit
      have hsum : p = 30000 + offset := (PortAllocator.contains_some hp).2
      omega
  · rintro rfl
    decide +kernel

theorem init_beginning {protocols : List String}
    (h : ∀ p, p ∈ held_ports (on_port protocols) ↔ p = 30000) :
    (service_ports Bool Nat).init (beginning protocols) := by
  refine ⟨?_, ?_, fun _ => rfl⟩
  · intro p
    rw [show (beginning protocols).pa = one_allocated from rfl, has_one_allocated, ← h p]
    constructor
    · exact fun hp => ⟨true, _, rfl, hp⟩
    · rintro ⟨k, v, hv, hp⟩
      cases k with
      | true =>
        cases hv
        exact hp
      | false => cases hv
  · intro k k' v v' hne hv hv'
    cases k with
    | false => cases hv
    | true =>
      cases k' with
      | true => exact absurd rfl hne
      | false => cases hv'

theorem reachable_called {s : State Bool Nat} (h : Reachable (service_ports Bool Nat) s) (r : Nat) :
    Reachable (service_ports Bool Nat) (s.called r) := by
  obtain ⟨tr, h⟩ := h
  unfold State.called
  cases hcall : (s.phase r).call with
  | none => exact ⟨tr, h⟩
  | some c => exact ⟨.call r answered :: tr, .step h ⟨c.1, c.2, hcall, rfl⟩⟩

/-- Two protocols on one node port: the second release of the deleted Service frees the
    port of the Service that has got it, and it is granted once more. -/
theorem second_release_frees_a_held_port :
    let s := (((taken_over ["TCP", "UDP"]).created).called 0).asked 2 true
    Reachable (service_ports Bool Nat) s ∧
      (s.stored false).content = some ⟨on_port ["TCP"], 1⟩ ∧
      30000 ∈ held_ports (on_port ["TCP"]) ∧ s.pa.has 30000 = false ∧ Grants s 2 answered 30000 := by
  have h₀ : Reachable (service_ports Bool Nat) (beginning ["TCP", "UDP"]) := by
    refine ⟨[], .init (init_beginning ?_)⟩
    intro p
    simp [held_ports, on_port, collect_service_node_ports, health_check_ports, needs_health_check,
      node_port]
  have h₁ : Reachable (service_ports Bool Nat)
      ((beginning ["TCP", "UDP"]).deleted ["TCP", "UDP"]) := by
    obtain ⟨tr, h⟩ := h₀
    exact ⟨.delete 0 true :: tr, .step h ⟨trivial, _, rfl, rfl⟩⟩
  have h₂ : Reachable (service_ports Bool Nat) (taken_over ["TCP", "UDP"]) := by
    obtain ⟨tr, h⟩ := reachable_called h₁ 0
    exact reachable_called
      ⟨.create 1 false (on_port ["TCP"]) false :: tr, .step h ⟨trivial, rfl⟩⟩ 1
  have h₃ : Reachable (service_ports Bool Nat) (taken_over ["TCP", "UDP"]).created := by
    obtain ⟨tr, h⟩ := h₂
    exact ⟨.write 1 true :: tr, .step h ⟨_, _, _, rfl, rfl⟩⟩
  refine ⟨?_, rfl, by decide, by decide +kernel, .inl ⟨_, rfl, rfl⟩⟩
  obtain ⟨tr, h⟩ := reachable_called h₃ 0
  exact ⟨.create 2 true (on_port ["TCP"]) false :: tr, .step h ⟨trivial, rfl⟩⟩

theorem steady_called {tr : List (Label Bool Nat)} {s : State Bool Nat}
    (h : ExecWhen (service_ports Bool Nat) Steady tr s) (r : Nat) :
    ∃ tr', ExecWhen (service_ports Bool Nat) Steady tr' (s.called r) := by
  unfold State.called
  cases hcall : (s.phase r).call with
  | none => exact ⟨tr, h⟩
  | some c => exact ⟨.call r answered :: tr, .step h trivial ⟨c.1, c.2, hcall, rfl⟩⟩

/-- With one protocol the port goes from one Service to the other. -/
theorem node_ports_not_shared_taken_over :
    (taken_over ["TCP"]).created.pa.has 30000 = true := by
  have h₀ : ExecWhen (service_ports Bool Nat) Steady [] (beginning ["TCP"]) := by
    refine .init (init_beginning ?_)
    intro p
    simp [held_ports, on_port, collect_service_node_ports, health_check_ports, needs_health_check,
      node_port]
  have h₁ : ExecWhen (service_ports Bool Nat) Steady [.delete 0 true]
      ((beginning ["TCP"]).deleted ["TCP"]) := by
    refine .step h₀ ?_ ⟨trivial, _, rfl, rfl⟩
    intro v hv
    cases hv
    exact nodup_singleton _
  obtain ⟨tr₂, h₂⟩ := steady_called h₁ 0
  have h₃ : ExecWhen (service_ports Bool Nat) Steady
      (.create 1 false (on_port ["TCP"]) false :: tr₂)
      ((((beginning ["TCP"]).deleted ["TCP"]).called 0).asked 1 false) :=
    .step h₂ trivial ⟨trivial, rfl⟩
  obtain ⟨tr₄, h₄⟩ := steady_called h₃ 1
  have h₅ : ExecWhen (service_ports Bool Nat) Steady (.write 1 true :: tr₄)
      (taken_over ["TCP"]).created := by
    refine .step h₄ ?_ ⟨_, _, _, rfl, rfl⟩
    intro task service op hphase
    injection hphase with htask hprog
    injection hprog with hok
    injection hok with hpair
    injection hpair with hservice hop
    subst htask hservice hop
    exact ⟨fun h => (by cases h), fun h => absurd rfl h⟩
  exact (node_ports_not_shared h₅).1 false _ rfl 30000 (by decide)

end twice

end ServicePorts
