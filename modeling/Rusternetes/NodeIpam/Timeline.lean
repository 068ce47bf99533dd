import Rusternetes.NodeIpam.RangeAllocator

/-! # Timelines

    What the allocator has of one node at a time: what is stored, what the loop knows, and
    the events that are still to come. Each stands for an incarnation of the node, which
    ends with its deletion and does not come back.
-/

open Framework Function LTS List

namespace NodeIpam

namespace WatchEvent

def node : WatchEvent → Node
  | .added node => node
  | .modified node => node
  | .deleted prev => prev

def result : WatchEvent → Option Node
  | .added node => some node
  | .modified node => some node
  | .deleted _ => none

def is_deleted : WatchEvent → Bool
  | .deleted _ => true
  | _ => false

theorem node_of_result {e : WatchEvent} {node : Node} (h : e.result = some node) : e.node = node := by
  cases e with
  | added _ | modified _ => exact Option.some.inj h
  | deleted _ => cases h

theorem is_deleted_iff {e : WatchEvent} : e.is_deleted = true ↔ e.result = none := by
  cases e <;> simp [is_deleted, result]

end WatchEvent

structure Timeline (issued : Nat) (stored known : Option Node) (listed : Bool)
    (pending : List WatchEvent) : Prop where
  stored_lt : ∀ node, stored = some node → node.uid < issued
  known_lt : ∀ node, known = some node → node.uid < issued
  pending_lt : ∀ e ∈ pending, e.node.uid < issued
  /-- The events lead up to what is stored. -/
  last : ∀ e, pending.getLast? = some e → stored = e.result
  /-- No event of an incarnation follows its deletion. -/
  dead : pending.Pairwise fun e e' => e.is_deleted = true → e'.node.uid ≠ e.node.uid
  dead_stored : ∀ e ∈ pending, e.is_deleted = true → ∀ node, stored = some node →
    node.uid ≠ e.node.uid
  /-- Before the nodes are listed, what is known is from before the watch. -/
  first : listed = false → ∀ k, known = some k → ∀ e ∈ pending, e.node.uid = k.uid →
    ∃ e', pending.head? = some e' ∧ e'.node.uid = k.uid

namespace Timeline

variable {issued : Nat} {stored known : Option Node} {listed : Bool} {pending : List WatchEvent}

theorem quiet (hstored : ∀ node, stored = some node → node.uid < issued)
    (hknown : ∀ node, known = some node → node.uid < issued) :
    Timeline issued stored known listed [] where
  stored_lt := hstored
  known_lt := hknown
  pending_lt := nofun
  last := nofun
  dead := .nil
  dead_stored := nofun
  first := fun _ _ _ _ he => nomatch he

/-- **A write**: of the incarnation that is stored, or of a new one. -/
theorem write (h : Timeline issued stored known listed pending) {issued' : Nat} {e : WatchEvent}
    (hle : issued ≤ issued') (hlt : e.node.uid < issued')
    (he : (stored = none ∧ e.node.uid = issued) ∨
      ∃ node, stored = some node ∧ e.node.uid = node.uid) :
    Timeline issued' e.result known listed (pending ++ [e]) := by
  -- the incarnation has not ended
  have halive : ∀ d ∈ pending, d.is_deleted = true → e.node.uid ≠ d.node.uid := by
    intro d hd hdeleted
    rcases he with ⟨-, hnew⟩ | ⟨node, hstored, huid⟩
    · have hd' := h.pending_lt d hd
      omega
    · rw [huid]
      exact h.dead_stored d hd hdeleted node hstored
  constructor
  case stored_lt =>
    intro node hnode
    rw [← WatchEvent.node_of_result hnode]
    exact hlt
  case known_lt => exact fun node hnode => (h.known_lt node hnode).trans_le hle
  case pending_lt =>
    exact forall_mem_append.mpr
      ⟨fun d hd => (h.pending_lt d hd).trans_le hle, forall_mem_singleton.mpr hlt⟩
  case last =>
    intro d hd
    rw [getLast?_append, getLast?_singleton, Option.some_or] at hd
    rw [Option.some.inj hd]
  case dead =>
    refine pairwise_append.mpr ⟨h.dead, pairwise_singleton _ _, ?_⟩
    intro d hd d' hd' hdeleted
    rw [mem_singleton.mp hd']
    exact halive d hd hdeleted
  case dead_stored =>
    intro d hd hdeleted node hnode
    rw [← WatchEvent.node_of_result hnode]
    rcases mem_append.mp hd with hd | hd
    · exact halive d hd hdeleted
    · rw [mem_singleton.mp hd, WatchEvent.is_deleted_iff] at hdeleted
      nomatch hnode.symm.trans hdeleted
  case first =>
    intro hlisted k hk d hd huid
    rcases mem_append.mp hd with hd | hd
    · obtain ⟨e', he', huid'⟩ := h.first hlisted k hk d hd huid
      refine ⟨e', ?_, huid'⟩
      rw [head?_append, he', Option.some_or]
    · rw [mem_singleton.mp hd] at huid
      rcases he with ⟨-, hnew⟩ | ⟨node, hstored, hnode⟩
      · have hk' := h.known_lt k hk
        omega
      · cases hpending : pending with
        | nil => exact ⟨e, rfl, huid⟩
        | cons p ps =>
          -- the last event is of the same incarnation
          obtain ⟨l, hl⟩ : ∃ l, pending.getLast? = some l := by
            rw [hpending]
            exact ⟨_, getLast?_eq_some_getLast (cons_ne_nil p ps)⟩
          have hresult := (h.last l hl).symm.trans hstored
          have hluid : l.node.uid = k.uid := by
            rw [WatchEvent.node_of_result hresult, ← hnode, huid]
          obtain ⟨e', he', huid'⟩ :=
            h.first hlisted k hk l (mem_of_getLast? hl) hluid
          rw [hpending] at he'
          exact ⟨e', he', huid'⟩

theorem tail {e : WatchEvent} {es : List WatchEvent} {known' : Option Node}
    (h : Timeline issued stored known listed (e :: es))
    (hknown : ∀ node, known' = some node → node = e.node) :
    Timeline issued stored known' true es where
  stored_lt := h.stored_lt
  known_lt := fun node hnode => by
    rw [hknown node hnode]
    exact h.pending_lt e (.head _)
  pending_lt := fun d hd => h.pending_lt d (.tail _ hd)
  last := fun d hd => by
    refine h.last d ?_
    rw [List.getLast?_cons, hd]
    rfl
  dead := (List.pairwise_cons.mp h.dead).2
  dead_stored := fun d hd => h.dead_stored d (.tail _ hd)
  first := fun hlisted => nomatch hlisted

theorem list (h : Timeline issued stored known listed pending) :
    Timeline issued stored stored true pending :=
  { h with
    known_lt := h.stored_lt
    first := fun hlisted => nomatch hlisted }

end Timeline

/-! ### What a step does -/

/-- The CIDRs a worker has reserved, each with its set. -/
def Phase.items : Phase → List Item
  | .allocating _ allocated => enumerate allocated
  | .fetching _ allocated => enumerate allocated
  | .patching _ allocated _ => enumerate allocated
  | .releasing items => items
  | _ => []

section steps

variable {ω : Type} [DecidableEq ω]

/-- One step, by what it does. -/
inductive Turn (s : State ω) : Label ω → State ω → Prop
  | creates {name : String} (hnone : s.stored name = none) :
      Turn s (.create name) { s.write name (some { name := name, uid := s.issued })
        (.added { name := name, uid := s.issued }) with issued := s.issued + 1 }
  | deletes {name : String} {node : Node} (hnode : s.stored name = some node) :
      Turn s (.delete name) (s.write name none (.deleted node))
  | changes {name : String} {node : Node} (deleting : Bool) (hnode : s.stored name = some node) :
      Turn s (.change name deleting) (s.write name (some { node with deleting := deleting })
        (.modified { node with deleting := deleting }))
  /-- A worker goes on with its reservations, or without. -/
  | goes (l : Label ω) (w : ω) (phase : Phase)
      (hitems : phase.items = [] ∨ phase.items = (s.worker w).items) : Turn s l (s.go w phase)
  | occupies (w : ω) {item : Item} {rest : List Item} {sets : List CidrSet}
      (hsets : occupy_cidr s.sets item = some sets) :
      Turn s (.occupy w) { s.go w (.occupying rest) with sets := sets }
  | allocates {w : ω} {name : String} {allocated : List IpNet} {set set' : CidrSet} {cidr : IpNet}
      (hphase : s.worker w = .allocating name allocated)
      (hset : s.sets[allocated.length]? = some set) (hok : set.allocate_next = .ok (cidr, set')) :
      Turn s (.allocate w) { s.go w (.allocating name (allocated ++ [cidr])) with
        sets := s.sets.set allocated.length set' }
  /-- A patch is applied. -/
  | patches {w : ω} {name : String} {allocated : List IpNet} {left : Nat} {node : Node}
      (outcome : Outcome) (phase : Phase) (hphase : s.worker w = .patching name allocated left)
      (hnode : s.stored name = some node)
      (hend : phase.items = [] ∨ outcome = .network true ∧ left ≠ 0) :
      Turn s (.patch w outcome) ((s.write name (some (patch_node_cidrs node allocated))
        (.modified (patch_node_cidrs node allocated))).go w phase)
  | releases {w : ω} {item : Item} {rest : List Item}
      (hphase : s.worker w = .releasing (item :: rest)) :
      Turn s (.release w) { s.go w (.releasing rest) with
        sets := (release_cidr s.sets item).getD s.sets }
  /-- A watch is opened or closed. -/
  | watches (l : Label ω) (watching : Bool) (hempty : s.releasing = []) :
      Turn s l { s with watching := watching, listed := false, pending := fun _ => [] }
  | relists {gone : List String} (hwatching : s.watching = true) (hlisted : s.listed = false)
      (hempty : s.releasing = []) :
      Turn s (.relist gone) { s with
        known := s.stored
        listed := true
        releasing := gone.map fun name =>
          enumerate (((s.known name).map node_pod_cidrs).getD []) }
  | handles {name : String} {e : WatchEvent} {es : List WatchEvent} (hlisted : s.listed = true)
      (hempty : s.releasing = []) (hpending : s.pending name = e :: es) :
      Turn s (.event name) ({ s with pending := Function.update s.pending name es }.handle name e)
  | releases_gone {item : Item} {rest : List Item} {others : List (List Item)}
      {sets : List CidrSet} (hreleasing : s.releasing = (item :: rest) :: others)
      (hsets : release_cidr s.sets item = some sets) :
      Turn s .release_gone { s with sets := sets, releasing := rest :: others }
  | skips {items : List Item} {others : List (List Item)}
      (hreleasing : s.releasing = items :: others) :
      Turn s .release_gone { s with releasing := others }

variable (name : String) (allocated : List IpNet) (node : Option Node)

theorem items_sync_node : (sync_node name node).items = [] := by
  unfold sync_node
  split
  · rfl
  · split_ifs <;> rfl

theorem items_update_cidrs_allocation :
    (update_cidrs_allocation name allocated node).items = [] ∨
      (update_cidrs_allocation name allocated node).items = enumerate allocated := by
  unfold update_cidrs_allocation
  split
  · exact .inl rfl
  · split_ifs
    · exact .inl rfl
    · exact .inr rfl
    · exact .inr rfl

theorem items_patch_failed (left : Nat) (network : Bool) :
    (patch_failed name allocated left network).items = [] ∨
      (patch_failed name allocated left network).items = enumerate allocated := by
  unfold patch_failed
  split
  · exact .inr rfl
  · split_ifs
    · exact .inl rfl
    · exact .inr rfl

variable {s s' : State ω} {l : Label ω}

omit [DecidableEq ω] in
theorem patched_eq_some {name : String} {allocated : List IpNet} (h : s.patched name allocated = some s') :
    ∃ node, s.stored name = some node ∧
      s' = s.write name (some (patch_node_cidrs node allocated))
        (.modified (patch_node_cidrs node allocated)) := by
  obtain ⟨node, hnode, h⟩ := Option.bind_eq_some_iff.mp h
  exact ⟨node, hnode, (Option.some.inj h).symm⟩

theorem turn_of_occupy {w : ω} (h : next s (.occupy w) = some s') :
    Turn s (.occupy w) s' := by
  dsimp only [next] at h
  split at h
  · next item rest hphase =>
    split at h
    · next sets hsets =>
      cases h
      exact .occupies w hsets
    · cases h
      exact .goes _ w _ (.inl rfl)
  · cases h

theorem turn_of_allocate {w : ω} (h : next s (.allocate w) = some s') :
    Turn s (.allocate w) s' := by
  dsimp only [next] at h
  split at h
  · next name allocated hphase =>
    split at h
    · cases h
      refine .goes _ w _ (.inr ?_)
      rw [hphase]
      rfl
    · next set hset =>
      split at h
      · next cidr set' hok =>
        cases h
        exact .allocates hphase hset hok
      · cases h
        exact .goes _ w _ (.inl rfl)
  · cases h

theorem turn_of_patch {w : ω} {outcome : Outcome} (h : next s (.patch w outcome) = some s') :
    Turn s (.patch w outcome) s' := by
  dsimp only [next] at h
  split at h
  · next name allocated left hphase =>
    split at h
    · obtain ⟨t, ht, rfl⟩ := Option.map_eq_some_iff.mp h
      obtain ⟨node, hnode, rfl⟩ := patched_eq_some ht
      exact .patches .ok _ hphase hnode (.inl rfl)
    · cases h
      refine .goes _ w _ ?_
      rw [hphase]
      exact items_patch_failed _ _ _ _
    · obtain ⟨t, ht, rfl⟩ := Option.map_eq_some_iff.mp h
      obtain ⟨node, hnode, rfl⟩ := patched_eq_some ht
      refine .patches (.network true) _ hphase hnode ?_
      cases left with
      | zero => exact .inl rfl
      | succ left => exact .inr ⟨rfl, Nat.succ_ne_zero left⟩
    · cases h
      refine .goes _ w _ ?_
      rw [hphase]
      exact items_patch_failed _ _ _ _
  · cases h

theorem turn_of_release_gone (h : next s .release_gone = some s') :
    Turn s .release_gone s' := by
  dsimp only [next] at h
  split at h
  · cases h
  · next others hreleasing =>
    cases h
    exact .skips hreleasing
  · next item rest others hreleasing =>
    split at h
    · next sets hsets =>
      cases h
      exact .releases_gone hreleasing hsets
    · cases h
      exact .skips hreleasing

/-- **Every step is one of these.** -/
theorem turn_of_next (h : next s l = some s') : Turn s l s' := by
  cases l with
  | create name =>
    dsimp only [next] at h
    split at h
    · cases h
    · next hnone =>
      cases h
      exact .creates hnone
  | delete name =>
    obtain ⟨node, hnode, h⟩ := Option.bind_eq_some_iff.mp h
    cases h
    exact .deletes hnode
  | change name deleting =>
    obtain ⟨node, hnode, h⟩ := Option.bind_eq_some_iff.mp h
    cases h
    exact .changes deleting hnode
  | sync w name =>
    dsimp only [next] at h
    split_ifs at h
    cases h
    exact .goes _ w _ (.inl rfl)
  | get w fails =>
    dsimp only [next] at h
    split at h
    · next name hphase =>
      cases h
      refine .goes _ w _ (.inl ?_)
      split_ifs
      · rfl
      · exact items_sync_node _ _
    · cases h
  | occupy w => exact turn_of_occupy h
  | allocate w => exact turn_of_allocate h
  | fetch w fails =>
    dsimp only [next] at h
    split at h
    · next name allocated hphase =>
      cases h
      refine .goes _ w _ ?_
      rw [hphase]
      split_ifs
      · exact .inl rfl
      · exact items_update_cidrs_allocation _ _ _
    · cases h
  | patch w outcome => exact turn_of_patch h
  | release w =>
    dsimp only [next] at h
    split at h
    · next item rest hphase =>
      cases h
      exact .releases hphase
    · cases h
  | watch =>
    dsimp only [next] at h
    split_ifs at h with hempty
    cases h
    exact .watches _ true (List.isEmpty_iff.mp hempty)
  | relist gone =>
    dsimp only [next] at h
    split_ifs at h with hready
    cases h
    simp only [Bool.and_eq_true, Bool.not_eq_true', List.isEmpty_iff] at hready
    exact .relists hready.1.1 hready.1.2 hready.2
  | event name =>
    dsimp only [next] at h
    split_ifs at h with hready
    split at h
    · cases h
    · next e es hpending =>
      cases h
      simp only [Bool.and_eq_true, List.isEmpty_iff] at hready
      exact .handles hready.1 hready.2 hpending
  | release_gone => exact turn_of_release_gone h
  | disconnect =>
    dsimp only [next] at h
    split_ifs at h with hempty
    cases h
    exact .watches _ false (List.isEmpty_iff.mp hempty)

end steps

/-! ### Every node has one -/

section runs

variable {ω : Type} {s s' : State ω}

structure Timelines (s : State ω) : Prop where
  timeline : ∀ name, Timeline s.issued (s.stored name) (s.known name) s.listed (s.pending name)
  quiet : s.watching = false → s.listed = false ∧ ∀ name, s.pending name = []

variable {name : String}

theorem Timelines.write (h : Timelines s) (e : WatchEvent) {issued : Nat} (hle : s.issued ≤ issued)
    (hlt : e.node.uid < issued) (he : (s.stored name = none ∧ e.node.uid = s.issued) ∨
      ∃ node, s.stored name = some node ∧ e.node.uid = node.uid) :
    Timelines { s.write name e.result e with issued := issued } := by
  unfold State.write
  refine ⟨?_, ?_⟩
  · intro m
    dsimp only
    have hm := h.timeline m
    by_cases hmn : m = name
    · subst hmn
      rw [update_self]
      by_cases hwatching : s.watching = true
      · rw [if_pos hwatching, update_self]
        exact hm.write hle hlt he
      · rw [if_neg hwatching, (h.quiet (by simpa using hwatching)).2 m]
        refine Timeline.quiet ?_ fun node hnode => (hm.known_lt node hnode).trans_le hle
        intro node hnode
        rw [← WatchEvent.node_of_result hnode]
        exact hlt
    · have hpending : (if s.watching = true then
          Function.update s.pending name (s.pending name ++ [e]) else s.pending) m = s.pending m := by
        split_ifs
        · exact update_of_ne hmn _ _
        · rfl
      rw [update_of_ne hmn, hpending]
      exact { hm with
        stored_lt := fun node hnode => (hm.stored_lt node hnode).trans_le hle
        known_lt := fun node hnode => (hm.known_lt node hnode).trans_le hle
        pending_lt := fun d hd => (hm.pending_lt d hd).trans_le hle }
  · intro hwatching
    dsimp only at hwatching ⊢
    rw [if_neg (by simp [hwatching])]
    exact h.quiet hwatching

theorem handle_eq (s : State ω) (name : String) (e : WatchEvent) :
    ∃ releasing, s.handle name e =
      { s with known := Function.update s.known name e.result, releasing := releasing } := by
  cases e with
  | added _ | modified _ => exact ⟨_, rfl⟩
  | deleted _ =>
    dsimp only [State.handle, WatchEvent.result]
    split
    · next hnone =>
      rw [← hnone, Function.update_eq_self]
      exact ⟨_, rfl⟩
    · exact ⟨_, rfl⟩

variable [DecidableEq ω] {cfg : NodeIpamConfig} {nodes : List Node} {l : Label ω}

/-- **Steps keep the timelines.** -/
theorem Turn.timelines (ht : Turn s l s') (h : Timelines s) : Timelines s' := by
  cases ht with
  | creates hnone =>
    exact h.write (.added _) (Nat.le_succ _) (Nat.lt_succ_self _) (.inl ⟨hnone, rfl⟩)
  | @deletes name node hnode =>
    exact h.write (.deleted node) le_rfl ((h.timeline name).stored_lt node hnode)
      (.inr ⟨node, hnode, rfl⟩)
  | @changes name node deleting hnode =>
    exact h.write (.modified _) le_rfl ((h.timeline name).stored_lt node hnode)
      (.inr ⟨node, hnode, rfl⟩)
  | @patches w name allocated left node outcome phase hphase hnode hend =>
    have hwrite : Timelines (s.write name (some (patch_node_cidrs node allocated))
        (.modified (patch_node_cidrs node allocated))) :=
      h.write (.modified _) le_rfl ((h.timeline name).stored_lt node hnode)
        (.inr ⟨node, hnode, rfl⟩)
    exact ⟨hwrite.timeline, hwrite.quiet⟩
  | watches watching hempty =>
    refine ⟨?_, fun _ => ⟨rfl, fun _ => rfl⟩⟩
    intro name
    exact Timeline.quiet (h.timeline name).stored_lt (h.timeline name).known_lt
  | relists hwatching hlisted hempty =>
    refine ⟨fun name => (h.timeline name).list, ?_⟩
    intro hnot
    nomatch hwatching.symm.trans hnot
  | @handles name e es hlisted hempty hpending =>
    obtain ⟨releasing, heq⟩ :=
      handle_eq { s with pending := Function.update s.pending name es } name e
    rw [heq]
    refine ⟨?_, fun hnot => absurd (hlisted.symm.trans (h.quiet hnot).1) (by decide)⟩
    intro m
    dsimp only
    have hm := h.timeline m
    by_cases hmn : m = name
    · subst hmn
      rw [update_self, update_self, hlisted]
      rw [hpending] at hm
      exact hm.tail fun node hnode => (WatchEvent.node_of_result hnode).symm
    · rw [update_of_ne hmn, update_of_ne hmn]
      exact hm
  | goes | occupies | allocates | releases | releases_gone | skips => exact ⟨h.timeline, h.quiet⟩

/-- **In every run** what is known of a node makes a timeline. -/
theorem timelines_of_reachable (h : Reachable (range_allocator ω cfg nodes) s) : Timelines s := by
  refine Reachable.invariant ?_ ?_ h
  swap
  · intro s l s' hs hstep
    exact (turn_of_next hstep.2).timelines hs
  intro s ⟨_, hstored, hknown, huids, _, _, hlisted, hpending, _⟩
  have hfound : ∀ name node, find_node nodes name = some node → node.uid < s.issued :=
    fun name node hnode => huids node (mem_of_find?_eq_some hnode)
  refine ⟨?_, fun _ => ⟨hlisted, fun name => by rw [hpending]⟩⟩
  intro name
  rw [hstored, hknown, hpending]
  exact Timeline.quiet (hfound name) (hfound name)

end runs

end NodeIpam
