import Rusternetes.Framework.Prog
import Rusternetes.NodeIpam.Timeline

/-! # Ownership of Blocks

    Every block that is taken belongs to someone: to an incarnation of a node, as long as
    a copy of it with the CIDR may still be written back or released; to a worker that has
    reserved it; to the loop that is about to release it; or to the services. Nobody
    releases what belongs to another. The two ways in which the code breaks this are left
    out: a patch that was applied although it failed is not attempted again, and a node
    that a relist finds gone is not brought back by an older event.
-/

open Framework Function LTS List Set

namespace NodeIpam

/-! ### Tokens -/

/-- A block: the index of its set and its index there. -/
abbrev Token := Nat × Nat

def CidrSet.blank (set : CidrSet) : CidrSet := { set with inner := {} }

section tokens

variable (nets : List CidrSet)

def tokens (cidr : IpNet) : Set Token :=
  {t | ∃ set, nets[t.1]? = some set ∧ t.2 < set.max_cidrs ∧
    ¬Disjoint cidr.addresses (set.index_to_cidr_block t.2).addresses}

def item_tokens (item : Item) : Set Token := {t | t ∈ tokens nets item.2 ∧ t.1 = item.1}

def items_tokens (items : List Item) : Set Token := {t | ∃ item ∈ items, t ∈ item_tokens nets item}

def node_tokens (node : Node) : Set Token := {t | ∃ c ∈ node_pod_cidrs node, t ∈ tokens nets c}

/-- The blocks that are taken. -/
def live (sets : List CidrSet) : Set Token :=
  {t | ∃ set, sets[t.1]? = some set ∧ t.2 < set.max_cidrs ∧ set.inner.bit t.2 = true}

/-- The sets are the given ones, and their counters are right. -/
structure Framed (sets : List CidrSet) : Prop where
  frame : sets.map CidrSet.blank = nets
  sound : ∀ set ∈ sets, CidrSet.Sound set.max_cidrs set.inner

variable {nets} {sets sets' : List CidrSet} {set : CidrSet} {i : Nat} {cidr : IpNet}

theorem mem_item_tokens_of_net (hnet : nets[i]? = some set.blank) {t : Token} (ht : t.1 = i) :
    t ∈ item_tokens nets (i, cidr) ↔ t.2 < set.max_cidrs ∧
      ¬Disjoint cidr.addresses (set.index_to_cidr_block t.2).addresses := by
  subst ht
  show (∃ set, nets[t.1]? = some set ∧ _) ∧ t.1 = t.1 ↔ _
  rw [hnet]
  simp only [Option.some.injEq, exists_eq_left', and_true]
  rfl

theorem item_tokens_block {b : Nat} (hnet : nets[i]? = some set.blank) (hb : b < set.max_cidrs) :
    item_tokens nets (i, set.index_to_cidr_block b) = {(i, b)} := by
  ext t
  constructor
  · intro ht
    have hmem := (mem_item_tokens_of_net hnet ht.2).mp ht
    exact Prod.ext ht.2 ((set.overlap_block_iff hb hmem.1).mp hmem.2)
  · rintro rfl
    exact (mem_item_tokens_of_net hnet rfl).mpr ⟨hb, (set.overlap_block_iff hb hb).mpr rfl⟩

theorem left_by_of_toOption {set' : CidrSet} {r : Except CidrSetError CidrSet}
    (h : r.toOption = some set') : set.left_by r = set' := by
  unfold CidrSet.left_by
  rw [h]
  rfl

variable (h : Framed nets sets) (hset : sets[i]? = some set)
include hset

theorem mem_live_of_get {t : Token} (ht : t.1 = i) :
    t ∈ live sets ↔ t.2 < set.max_cidrs ∧ set.inner.bit t.2 = true := by
  subst ht
  show (∃ set, sets[t.1]? = some set ∧ _) ↔ _
  rw [hset]
  simp only [Option.some.injEq, exists_eq_left']

theorem mem_live_set (s : CidrSetInner) (t : Token) :
    t ∈ live (sets.set i { set with inner := s }) ↔
      if t.1 = i then t.2 < set.max_cidrs ∧ s.bit t.2 = true else t ∈ live sets := by
  have hlt : i < sets.length := (List.getElem?_eq_some_iff.mp hset).1
  split_ifs with ht
  · exact mem_live_of_get (getElem?_set_self hlt) ht
  · unfold live
    rw [mem_ofPred_eq, getElem?_set_ne (Ne.symm ht)]
    rfl

include h

theorem Framed.net : nets[i]? = some set.blank := by
  rw [← h.frame, getElem?_map, hset]
  rfl

theorem Framed.update {s : CidrSetInner} (hs : CidrSet.Sound set.max_cidrs s) :
    Framed nets (sets.set i { set with inner := s }) := by
  constructor
  · obtain ⟨hlt, heq⟩ := List.getElem?_eq_some_iff.mp (h.net hset)
    rw [map_set, h.frame]
    show nets.set i set.blank = nets
    rw [← heq, set_getElem_self]
  · intro set' hset'
    rcases mem_or_eq_of_mem_set hset' with hmem | rfl
    · exact h.sound set' hmem
    · exact hs

theorem live_update {R : Prop → Prop → Prop} (hR : ∀ a, R a False ↔ a) {s : CidrSetInner}
    (hbits : ∀ j < set.max_cidrs, s.bit j = true ↔ R (set.inner.bit j = true)
      (¬Disjoint cidr.addresses (set.index_to_cidr_block j).addresses)) (t : Token) :
    t ∈ live (sets.set i { set with inner := s }) ↔
      R (t ∈ live sets) (t ∈ item_tokens nets (i, cidr)) := by
  rw [mem_live_set hset]
  by_cases ht : t.1 = i
  · rw [if_pos ht, mem_live_of_get hset ht, mem_item_tokens_of_net (h.net hset) ht]
    by_cases hmax : t.2 < set.max_cidrs
    · simp [hmax, hbits t.2 hmax]
    · simp [hmax, hR]
  · have hnot : ¬t ∈ item_tokens nets (i, cidr) := fun hitem => ht hitem.2
    rw [if_neg ht, eq_false hnot, hR]

/-- **Allocating** takes a block that is free. -/
theorem allocate_spec {set' : CidrSet} (hok : set.allocate_next = .ok (cidr, set')) :
    Framed nets (sets.set i set') ∧ live (sets.set i set') = live sets ∪ item_tokens nets (i, cidr) ∧
      Disjoint (item_tokens nets (i, cidr)) (live sets) ∧
      ∃ b < set.max_cidrs, cidr = set.index_to_cidr_block b := by
  have hsound := h.sound set (mem_of_getElem? hset)
  rcases set.allocate_next_spec hsound with ⟨herror, -⟩ | ⟨b, hb, hfree, s, hs, hnext, hbits⟩
  · nomatch herror.symm.trans hok
  · cases hnext.symm.trans hok
    refine ⟨h.update hset hs, ext (live_update h hset (by simp) ?_), ?_, b, hb, rfl⟩
    · intro j hj
      rw [hbits, Bool.or_eq_true, decide_eq_true_iff, set.overlap_block_iff hb hj]
    · rw [item_tokens_block (h.net hset) hb, disjoint_singleton_left]
      intro hmem
      have hbit := ((mem_live_of_get hset rfl).mp hmem).2
      nomatch hbit.symm.trans hfree

omit hset

/-- **Occupying** takes the blocks of a CIDR in its set. -/
theorem occupy_cidr_spec {item : Item} (hok : occupy_cidr sets item = some sets') :
    Framed nets sets' ∧ live sets' = live sets ∪ item_tokens nets item := by
  obtain ⟨set, hset, hok⟩ := Option.bind_eq_some_iff.mp hok
  obtain ⟨set', hset', hok⟩ := Option.bind_eq_some_iff.mp hok
  cases hok
  obtain ⟨s, hs, hleft, hbits⟩ := set.occupy_spec (h.sound set (mem_of_getElem? hset)) item.2
  rw [left_by_of_toOption hset'] at hleft
  subst hleft
  exact ⟨h.update hset hs, ext (live_update h hset (by simp) hbits)⟩

/-- **Releasing** frees them. -/
theorem release_cidr_spec {item : Item} (hok : release_cidr sets item = some sets') :
    Framed nets sets' ∧ live sets' = live sets \ item_tokens nets item := by
  obtain ⟨set, hset, hok⟩ := Option.bind_eq_some_iff.mp hok
  obtain ⟨set', hset', hok⟩ := Option.bind_eq_some_iff.mp hok
  cases hok
  obtain ⟨s, hs, hleft, hbits⟩ := set.release_spec (h.sound set (mem_of_getElem? hset)) item.2
  rw [left_by_of_toOption hset'] at hleft
  subst hleft
  refine ⟨h.update hset hs, ext (live_update (R := fun a b => a ∧ ¬b) h hset (by simp) ?_)⟩
  intro j hj
  rw [hbits j hj, not_not]

end tokens

/-! ### Copies of a node -/

/-- The copies among the events that may still be released: a deletion is handled only for
    a node that is tracked. -/
def copies : Bool → List WatchEvent → List Node
  | _, [] => []
  | _, .added node :: es => node :: copies true es
  | _, .modified node :: es => node :: copies true es
  | true, .deleted prev :: es => prev :: copies false es
  | false, .deleted _ :: es => copies false es

variable {es : List WatchEvent} {node : Node}

theorem copies_sublist (tracked : Bool) (es : List WatchEvent) :
    (copies tracked es).Sublist (es.map WatchEvent.node) := by
  fun_induction copies tracked es with
  | case1 => exact .slnil
  | case2 _ _ _ ih | case3 _ _ _ ih | case4 _ _ ih => exact ih.cons_cons _
  | case5 _ _ ih => exact ih.cons _

theorem mem_copies {tracked : Bool} (h : node ∈ copies tracked es) : ∃ e ∈ es, e.node = node :=
  mem_map.mp ((copies_sublist tracked es).subset h)

theorem copies_append_subset (tracked : Bool) (es : List WatchEvent) (e : WatchEvent) :
    copies tracked (es ++ [e]) ⊆ copies tracked es ++ [e.node] := by
  fun_induction copies tracked es with
  | case1 tracked => exact (copies_sublist tracked [e]).subset
  | case2 _ _ _ ih | case3 _ _ _ ih | case4 _ _ ih => exact cons_subset_cons _ ih
  | case5 _ _ ih => exact ih

theorem copies_of_untracked (h : node ∈ copies false es) : node ∈ copies true es := by
  cases es with
  | nil => exact h
  | cons e es =>
    cases e with
    | added _ | modified _ => exact h
    | deleted _ => exact .tail _ h

/-! ### Owners -/

/-- Whom a block may belong to. -/
inductive Owner (ω : Type) where
  | node (name : String) (uid : Nat)
  | worker (w : ω)
  | loop
  | services
  deriving DecidableEq

section owners

variable {ω : Type}

/-- The copies of a node that may be written back or released. -/
def State.copies (s : State ω) (name : String) : List Node :=
  (s.stored name).toList ++ ((s.known name).toList ++
    NodeIpam.copies (!s.listed || (s.known name).isSome) (s.pending name))

variable {name : String} {node : Node}

theorem mem_state_copies {s : State ω} :
    node ∈ s.copies name ↔ s.stored name = some node ∨ s.known name = some node ∨
      node ∈ copies (!s.listed || (s.known name).isSome) (s.pending name) := by
  simp [State.copies]

variable (services : List IpNet) (nets : List CidrSet)

/-- What belongs to each. -/
def own (s : State ω) : Owner ω → Set Token
  | .node name uid => {t | ∃ node ∈ s.copies name, node.uid = uid ∧ t ∈ node_tokens nets node}
  | .worker w => items_tokens nets (s.worker w).items
  | .loop => items_tokens nets s.releasing.flatten
  | .services => {t | ∃ svc ∈ services, t ∈ tokens nets svc}

/-- The CIDRs of a node lie in the cluster CIDRs and share no block. -/
structure Placed (node : Node) : Prop where
  meets : ∀ c ∈ node_pod_cidrs node, (tokens nets c).Nonempty
  within : ∀ c ∈ node_pod_cidrs node, ∀ c' ∈ node_pod_cidrs node, c ≠ c' →
    Disjoint (tokens nets c) (tokens nets c')

/-- Nobody has what belongs to another. -/
structure Owned (s : State ω) : Prop where
  framed : Framed nets s.sets
  apart : Apart (live s.sets) (own services nets s)
  /-- Workers have blocks, of different sets. -/
  blocks : ∀ w, ∀ item ∈ (s.worker w).items, ∃ set b, nets[item.1]? = some set ∧
    b < set.max_cidrs ∧ item.2 = set.index_to_cidr_block b
  worker_items : ∀ w, ((s.worker w).items.map Prod.fst).Nodup
  loop_items : s.releasing.flatten.Pairwise fun a b =>
    Disjoint (item_tokens nets a) (item_tokens nets b)
  placed : ∀ name node, s.stored name = some node → Placed nets node

/-- The steps that the code gets right: a patch that was applied although it failed on the
    network is the last attempt; and the events to come of a node that a relist finds gone
    begin with its deletion. -/
def Careful (s : State ω) : Label ω → Prop
  | .patch w (.network true) => ∀ name allocated left,
      s.worker w = .patching name allocated left → left = 0
  | .relist gone => ∀ name ∈ gone, ∀ e, (s.pending name).head? = some e → e.is_deleted = true
  | _ => True

/-! ### Items -/

theorem fst_enumerate (cidrs : List IpNet) :
    (enumerate cidrs).map Prod.fst = List.range cidrs.length := by
  unfold enumerate
  rw [map_map]
  have hswap : Prod.fst ∘ Prod.swap = (Prod.snd : IpNet × Nat → Nat) := rfl
  rw [hswap, zipIdx_map_snd, range_eq_range']

theorem nodup_enumerate (cidrs : List IpNet) : ((enumerate cidrs).map Prod.fst).Nodup := by
  rw [fst_enumerate]
  exact nodup_range

variable {cidrs : List IpNet}

variable {c : IpNet}

theorem mem_enumerate (h : c ∈ cidrs) : ∃ item ∈ enumerate cidrs, item.2 = c := by
  obtain ⟨i, hi, rfl⟩ := mem_iff_getElem.mp h
  refine ⟨(i, cidrs[i]), mem_map.mpr ⟨(cidrs[i], i), ?_, rfl⟩, rfl⟩
  exact mk_mem_zipIdx_iff_getElem?.mpr (getElem?_eq_getElem hi)

variable {services nets} {items : List Item}

/-- Items of different sets have different blocks. -/
theorem pairwise_of_nodup (h : (items.map Prod.fst).Nodup) :
    items.Pairwise fun a b => Disjoint (item_tokens nets a) (item_tokens nets b) := by
  refine (pairwise_map.mp h).imp ?_
  intro a b hne
  refine disjoint_left.mpr ?_
  intro t ha hb
  exact hne (ha.2.symm.trans hb.2)

theorem items_tokens_mono {items' : List Item} (h : ∀ item ∈ items, item ∈ items') :
    items_tokens nets items ⊆ items_tokens nets items' := by
  intro t ⟨item, hitem, ht⟩
  exact ⟨item, h item hitem, ht⟩

theorem disjoint_items_tokens {item : Item}
    (h : ∀ other ∈ items, Disjoint (item_tokens nets item) (item_tokens nets other)) :
    Disjoint (items_tokens nets items) (item_tokens nets item) := by
  refine disjoint_left.mpr ?_
  intro t ⟨other, hother, ht⟩ hitem
  exact (h other hother).notMem_of_mem_left hitem ht

theorem items_tokens_enumerate_subset :
    items_tokens nets (enumerate (node_pod_cidrs node)) ⊆ node_tokens nets node := by
  intro t ⟨item, hitem, ht⟩
  obtain ⟨p, hp, rfl⟩ := mem_map.mp hitem
  exact ⟨p.1, fst_mem_of_mem_zipIdx hp, ht.1⟩

/-! ### Patches -/

theorem mem_merge_scalar_lists {original patch : List IpNet}
    (h : c ∈ merge_scalar_lists original patch) : c ∈ original ∨ c ∈ patch := by
  have hmerged : c ∈ (original ++ patch).eraseDups := by
    rcases mem_merge.mp h with hleft | hright
    · exact (mem_filter.mp (mem_mergeSort.mp hleft)).1
    · exact (mem_filter.mp (mem_mergeSort.mp hright)).1
  exact mem_append.mp (mem_eraseDups.mp hmerged)

theorem mem_pod_cidrs_patch (h : c ∈ node_pod_cidrs (patch_node_cidrs node cidrs)) :
    c ∈ node_pod_cidrs node ∨ c ∈ cidrs := by
  unfold patch_node_cidrs at h
  unfold node_pod_cidrs at h ⊢
  dsimp only at h
  split_ifs at h
  · exact .inr (mem_of_head? (Option.mem_toList.mp h))
  · cases hexisting : node.pod_cidrs with
    | none =>
      rw [hexisting] at h
      exact .inr h
    | some =>
      rw [hexisting] at h
      refine (mem_merge_scalar_lists h).imp_left ?_
      intro hc
      dsimp only
      rw [if_neg (by simpa using ne_nil_of_mem hc)]
      exact hc

theorem index_unique (hfamilies : (nets.map fun set => set.cluster.family).Nodup) {i j : Nat}
    {set set' : CidrSet} (hset : nets[i]? = some set) (hset' : nets[j]? = some set')
    (hfamily : set.cluster.family = set'.cluster.family) : i = j := by
  refine (getElem?_inj ?_ hfamilies).mp ?_
  · rw [length_map]
    exact (List.getElem?_eq_some_iff.mp hset).1
  · rw [getElem?_map, getElem?_map, hset, hset', Option.map_some, Option.map_some,
      hfamily]

theorem net_of_mem_tokens {t : Token} (h : t ∈ tokens nets c) :
    ∃ set, nets[t.1]? = some set ∧ t.2 < set.max_cidrs ∧ c.family = set.cluster.family ∧
      ¬Disjoint c.addresses (set.index_to_cidr_block t.2).addresses := by
  obtain ⟨set, hset, hmax, hoverlap⟩ := h
  obtain ⟨x, hx, hx'⟩ := not_disjoint_iff.mp hoverlap
  exact ⟨set, hset, hmax, hx.1.symm.trans hx'.1, hoverlap⟩

/-- A CIDR that overlaps a block of its set overlaps no other set. -/
theorem tokens_of_item (hfamilies : (nets.map fun set => set.cluster.family).Nodup) {item : Item}
    (h : (item_tokens nets item).Nonempty) : tokens nets item.2 ⊆ item_tokens nets item := by
  obtain ⟨t', ht', hindex⟩ := h
  intro t ht
  obtain ⟨set, hset, -, hfamily, -⟩ := net_of_mem_tokens ht
  obtain ⟨set', hset', -, hfamily', -⟩ := net_of_mem_tokens ht'
  refine ⟨ht, ?_⟩
  rw [← hindex]
  exact index_unique hfamilies hset hset' (hfamily.symm.trans hfamily')

/-! ### Steps -/

variable {s s' : State ω}

theorem own_stored (hnode : s.stored name = some node) :
    node_tokens nets node ⊆ own services nets s (.node name node.uid) :=
  fun _ ht => ⟨node, mem_state_copies.mpr (.inl hnode), rfl, ht⟩

theorem own_subset (hcopies : ∀ m, ∀ copy ∈ s'.copies m, copy ∈ s.copies m)
    (hworkers : ∀ w, ∀ item ∈ (s'.worker w).items, item ∈ (s.worker w).items)
    (hloop : ∀ item ∈ s'.releasing.flatten, item ∈ s.releasing.flatten) (i : Owner ω) :
    own services nets s' i ⊆ own services nets s i := by
  cases i with
  | node m uid => exact fun t ⟨copy, hcopy, ht⟩ => ⟨copy, hcopies m copy hcopy, ht⟩
  | worker w => exact items_tokens_mono (hworkers w)
  | loop => exact items_tokens_mono hloop
  | services => exact subset_rfl

theorem mem_copies_write {m : String} {e : WatchEvent}
    (h : node ∈ (s.write name e.result e).copies m) :
    node ∈ s.copies m ∨ m = name ∧ node = e.node := by
  rw [mem_state_copies] at h ⊢
  unfold State.write at h
  dsimp only at h
  by_cases hm : m = name
  · subst hm
    rw [update_self] at h
    rcases h with hstored | hknown | hcopy
    · exact .inr ⟨rfl, (WatchEvent.node_of_result hstored).symm⟩
    · exact .inl (.inr (.inl hknown))
    · split_ifs at hcopy
      · rw [update_self] at hcopy
        exact (mem_append.mp (copies_append_subset _ _ _ hcopy)).imp (fun h => .inr (.inr h))
          fun h => ⟨rfl, mem_singleton.mp h⟩
      · exact .inl (.inr (.inr hcopy))
  · left
    rw [update_of_ne hm] at h
    refine h.imp_right fun h => h.imp_right fun hcopy => ?_
    split_ifs at hcopy
    · rw [update_of_ne hm] at hcopy
      exact hcopy
    · exact hcopy

theorem own_write {e : WatchEvent} {i : Owner ω} {t : Token}
    (h : t ∈ own services nets (s.write name e.result e) i) :
    t ∈ own services nets s i ∨ i = .node name e.node.uid ∧ t ∈ node_tokens nets e.node := by
  cases i with
  | node m uid =>
    obtain ⟨node, hnode, huid, ht⟩ := h
    rcases mem_copies_write hnode with hcopy | ⟨rfl, rfl⟩
    · exact .inl ⟨node, hcopy, huid, ht⟩
    · exact .inr ⟨by rw [huid], ht⟩
  | worker w | loop | services => exact .inl h

theorem Owned.placed_write (h : Owned services nets s) {o : Option Node}
    (ho : ∀ node, o = some node → Placed nets node) :
    ∀ m node, Function.update s.stored name o m = some node → Placed nets node :=
  (forall_update_iff s.stored fun _ o => ∀ node, o = some node → Placed nets node).mpr
    ⟨ho, fun m _ => h.placed m⟩

theorem Owned.write (h : Owned services nets s) (e : WatchEvent)
    (htokens : ∀ t ∈ node_tokens nets e.node, t ∈ own services nets s (.node name e.node.uid))
    (hplaced : ∀ node, e.result = some node → Placed nets node) :
    Owned services nets (s.write name e.result e) := by
  refine { h with apart := h.apart.mono ?_ subset_rfl, placed := h.placed_write hplaced }
  intro i t ht
  rcases own_write ht with hold | ⟨rfl, hnew⟩
  · exact hold
  · exact htokens t hnew

variable [DecidableEq ω] {phase : Phase} {w : ω}

theorem own_go (hitems : ∀ item ∈ phase.items, item ∈ (s.worker w).items) (i : Owner ω) :
    own services nets (s.go w phase) i ⊆ own services nets s i := by
  refine own_subset ?_ ?_ ?_ i
  · exact fun _ _ h => h
  · exact (forall_update_iff s.worker fun v phase => ∀ item ∈ phase.items,
      item ∈ (s.worker v).items).mpr ⟨hitems, fun _ _ _ h => h⟩
  · exact fun _ h => h

theorem own_go_self (hitems : phase.items = []) :
    own services nets (s.go w phase) (.worker w) = ∅ := by
  show items_tokens nets ((s.go w phase).worker w).items = ∅
  unfold State.go
  dsimp only
  rw [update_self, hitems]
  ext t
  simp [items_tokens]

end owners

end NodeIpam
