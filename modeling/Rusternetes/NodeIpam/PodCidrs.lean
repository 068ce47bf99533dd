import Rusternetes.Framework.Folds
import Rusternetes.NodeIpam.Exclusion

/-! # No Two Nodes Share a Pod CIDR

    From blocks to addresses: CIDRs that share no block share no address, for one that
    reaches beyond its cluster CIDR contains it. The allocator begins with the blocks apart.
-/

open Framework LTS List Set

namespace NodeIpam

/-! ### Addresses -/

namespace IpNet

variable {a b : IpNet}

theorem subset_of_overlap (hle : a.host_bits ≤ b.host_bits) (h : ¬Disjoint a.addresses b.addresses) :
    a.addresses ⊆ b.addresses := by
  obtain ⟨x, hxa, hxb⟩ := not_disjoint_iff.mp h
  intro y hy
  refine ⟨hy.1.trans (hxa.1.symm.trans hxb.1), ?_⟩
  rw [← hxb.2, ← Masks.div_div hle, hy.2, ← hxa.2, Masks.div_div hle]

/-- A CIDR that overlaps another, and is not all in it, contains it. -/
theorem subset_of_mem (h : ¬Disjoint a.addresses b.addresses) {x : Family × Nat}
    (hxa : x ∈ a.addresses) (hxb : x ∉ b.addresses) : b.addresses ⊆ a.addresses := by
  rcases Nat.le_total a.host_bits b.host_bits with hle | hle
  · exact absurd (subset_of_overlap hle h hxa) hxb
  · exact subset_of_overlap hle fun hdisjoint => h hdisjoint.symm

theorem network_mem (n : IpNet) : (n.family, n.network) ∈ n.addresses :=
  ⟨rfl, n.network_div⟩

theorem disjoint_of_contains (hab : a.contains b.family b.network = false)
    (hba : b.contains a.family a.network = false) : Disjoint a.addresses b.addresses := by
  have hmem : ∀ m n : IpNet, n.contains m.family m.network = false → ¬m.addresses ⊆ n.addresses := by
    intro m n hcontains hsub
    have hnetwork := hsub m.network_mem
    unfold contains at hcontains
    rw [decide_eq_true hnetwork.1, decide_eq_true hnetwork.2] at hcontains
    nomatch hcontains
  by_contra hoverlap
  rcases Nat.le_total a.host_bits b.host_bits with hle | hle
  · exact hmem a b hba (subset_of_overlap hle hoverlap)
  · exact hmem b a hab (subset_of_overlap hle fun hdisjoint => hoverlap hdisjoint.symm)

end IpNet

section blocks

variable {nets : List CidrSet}

variable {c : IpNet}

theorem exists_token {i : Nat} {set : CidrSet} (hset : nets[i]? = some set)
    (hoverlap : ¬Disjoint c.addresses set.cluster.addresses) : ∃ b, (i, b) ∈ tokens nets c := by
  obtain ⟨x, hx, hcluster⟩ := not_disjoint_iff.mp hoverlap
  obtain ⟨b, hb, hblock⟩ := set.exists_block hcluster
  exact ⟨b, set, hset, hb, not_disjoint_iff.mpr ⟨x, hx, hblock⟩⟩

/-- **CIDRs that share no block share no address.** -/
theorem disjoint_of_tokens (hfamilies : (nets.map fun set => set.cluster.family).Nodup) {c' : IpNet}
    (hc : (tokens nets c).Nonempty) (hc' : (tokens nets c').Nonempty)
    (hdisjoint : Disjoint (tokens nets c) (tokens nets c')) :
    Disjoint c.addresses c'.addresses := by
  refine disjoint_left.mpr ?_
  intro x hx hx'
  obtain ⟨t, ht⟩ := hc
  obtain ⟨t', ht'⟩ := hc'
  obtain ⟨set, hset, hmax, hfamily, hoverlap⟩ := net_of_mem_tokens ht
  obtain ⟨set', hset', hmax', hfamily', hoverlap'⟩ := net_of_mem_tokens ht'
  -- both lie in the same cluster CIDR
  have hindex : t.1 = t'.1 := by
    refine index_unique hfamilies hset hset' ?_
    rw [← hfamily, ← hfamily', ← hx.1, ← hx'.1]
  rw [← hindex, hset] at hset'
  cases hset'
  by_cases hcluster : x ∈ set.cluster.addresses
  · obtain ⟨b, hb, hblock⟩ := set.exists_block hcluster
    have hmem : (t.1, b) ∈ tokens nets c :=
      ⟨set, hset, hb, not_disjoint_iff.mpr ⟨x, hx, hblock⟩⟩
    have hmem' : (t.1, b) ∈ tokens nets c' :=
      ⟨set, hset, hb, not_disjoint_iff.mpr ⟨x, hx', hblock⟩⟩
    exact hdisjoint.notMem_of_mem_left hmem hmem'
  · -- the first contains the cluster CIDR, and so the block of the other
    have hsub : set.cluster.addresses ⊆ c.addresses := by
      refine IpNet.subset_of_mem ?_ hx hcluster
      exact fun hnone => hoverlap (hnone.mono_right (set.block_subset hmax))
    have hmem : t' ∈ tokens nets c := by
      refine ⟨set, by rw [← hindex, hset], hmax', ?_⟩
      obtain ⟨y, -, hy⟩ := not_disjoint_iff.mp hoverlap'
      exact not_disjoint_iff.mpr ⟨y, hsub (set.block_subset hmax' hy), hy⟩
    exact hdisjoint.notMem_of_mem_left hmem ht'

/-- The blocks of a CIDR that is not narrower than one lie in it. -/
theorem disjoint_tokens_of_wide {c' : IpNet}
    (hwide : ∀ set ∈ nets, c.family = set.cluster.family → c.prefix_len ≤ set.node_mask)
    (hdisjoint : Disjoint c.addresses c'.addresses) :
    Disjoint (tokens nets c) (tokens nets c') := by
  refine disjoint_left.mpr ?_
  intro t ht ⟨set', hset', hmax', hoverlap'⟩
  obtain ⟨set, hset, hmax, hfamily, hoverlap⟩ := net_of_mem_tokens ht
  rw [hset] at hset'
  obtain rfl := Option.some.inj hset'
  have hle : (set.index_to_cidr_block t.2).host_bits ≤ c.host_bits := by
    show set.cluster.family.width - set.node_mask ≤ c.family.width - c.prefix_len
    rw [hfamily]
    exact Nat.sub_le_sub_left (hwide set (mem_of_getElem? hset) hfamily) _
  have hsub := IpNet.subset_of_overlap hle fun hnone => hoverlap hnone.symm
  exact hoverlap' (hdisjoint.symm.mono_right hsub)

end blocks

/-! ### Construction -/

theorem CidrSet.new_spec {cluster : IpNet} {node_mask : Nat} {set : CidrSet}
    (h : (CidrSet.new cluster node_mask).toOption = some set) :
    (set.cluster, set.node_mask) = (cluster, node_mask) ∧ set.blank = set ∧
      CidrSet.Sound set.max_cidrs set.inner := by
  unfold Except.toOption at h
  split at h
  · next hnew =>
    cases h
    have hsound := (records_new hnew).2.sound
    unfold CidrSet.new at hnew
    split_ifs at hnew
    cases hnew
    exact ⟨rfl, rfl, hsound⟩
  · cases h

theorem mapM_new_spec {l : List (IpNet × Nat)} {sets : List CidrSet}
    (h : (l.mapM fun p => (CidrSet.new p.1 p.2).toOption) = some sets) :
    (sets.map fun set => (set.cluster, set.node_mask)) = l ∧
      ∀ set ∈ sets, set.blank = set ∧ CidrSet.Sound set.max_cidrs set.inner := by
  induction l generalizing sets with
  | nil =>
    cases h
    exact ⟨rfl, nofun⟩
  | cons p l ih =>
    rw [mapM_cons] at h
    obtain ⟨set, hset, h⟩ := Option.bind_eq_some_iff.mp h
    obtain ⟨rest, hrest, h⟩ := Option.bind_eq_some_iff.mp h
    cases h
    obtain ⟨hmap, hall⟩ := ih hrest
    obtain ⟨hpair, hnew⟩ := CidrSet.new_spec hset
    exact ⟨by rw [map_cons, hmap, hpair], forall_mem_cons.mpr ⟨hnew, hall⟩⟩

theorem map_fst_zip_sublist (clusters : List IpNet) (masks : List Nat) :
    ((clusters.zip masks).map Prod.fst).Sublist clusters := by
  induction clusters generalizing masks with
  | nil => exact .refl _
  | cons cluster _ ih =>
    cases masks with
    | nil => exact nil_sublist _
    | cons mask masks => exact (ih masks).cons_cons cluster

/-- **The sets as created**: one for each cluster CIDR that has a mask, without blocks. -/
theorem create_sets_spec {cfg : NodeIpamConfig} {nets : List CidrSet}
    (h : create_sets cfg = some nets) :
    Framed nets nets ∧ (nets.map fun set => set.cluster.family).Nodup ∧
      ∀ set ∈ nets, (set.cluster, set.node_mask) ∈ cfg.cluster_cidrs.zip cfg.node_masks := by
  obtain ⟨hmap, hall⟩ := mapM_new_spec h
  refine ⟨⟨?_, fun set hset => (hall set hset).2⟩, ?_, ?_⟩
  · exact (map_congr_left fun set hset => (hall set hset).1).trans (map_id _)
  · have hfamily : (nets.map fun set => set.cluster.family) =
        ((cfg.cluster_cidrs.zip cfg.node_masks).map Prod.fst).map IpNet.family := by
      rw [← hmap, map_map, map_map]
      rfl
    rw [hfamily]
    exact cfg.families.sublist ((map_fst_zip_sublist _ _).map _)
  · intro set hset
    rw [← hmap]
    exact mem_map.mpr ⟨set, hset, rfl⟩

section construction

variable {nets sets sets' : List CidrSet}

/-- **Service CIDRs** take the blocks that they overlap. -/
theorem filter_out_service_range_spec (h : Framed nets sets) (svc : IpNet) :
    Framed nets (filter_out_service_range sets svc) ∧
      live (filter_out_service_range sets svc) = live sets ∪ tokens nets svc := by
  have hset : ∀ set : CidrSet, CidrSet.Sound set.max_cidrs set.inner →
      ∃ s, CidrSet.Sound set.max_cidrs s ∧
        (if set.cluster.contains svc.family svc.network ||
            svc.contains set.cluster.family set.cluster.network then
          set.left_by (set.occupy svc) else set) = { set with inner := s } ∧
        ∀ i < set.max_cidrs, s.bit i = true ↔ set.inner.bit i = true ∨
          ¬Disjoint svc.addresses (set.index_to_cidr_block i).addresses := by
    intro set hsound
    split_ifs with hcontains
    · exact set.occupy_spec hsound svc
    · -- the service CIDR is outside of the cluster CIDR
      refine ⟨set.inner, hsound, rfl, ?_⟩
      intro i hi
      rw [Bool.or_eq_true, not_or, Bool.not_eq_true, Bool.not_eq_true] at hcontains
      have hdisjoint := IpNet.disjoint_of_contains hcontains.2 hcontains.1
      exact (or_iff_left (not_not.mpr (hdisjoint.mono_right (set.block_subset hi)))).symm
  constructor
  · constructor
    · rw [filter_out_service_range, map_map, ← h.frame]
      refine map_congr_left ?_
      intro set hmem
      obtain ⟨s, -, heq, -⟩ := hset set (h.sound set hmem)
      rw [Function.comp_apply, heq]
      rfl
    · intro set' hset'
      obtain ⟨set, hmem, rfl⟩ := mem_map.mp hset'
      obtain ⟨s, hs, heq, -⟩ := hset set (h.sound set hmem)
      rw [heq]
      exact hs
  · ext t
    constructor
    · rintro ⟨set', hset', hmax, hbit⟩
      rw [filter_out_service_range, getElem?_map] at hset'
      obtain ⟨set, hget, rfl⟩ := Option.map_eq_some_iff.mp hset'
      obtain ⟨s, -, heq, hbits⟩ := hset set (h.sound set (mem_of_getElem? hget))
      rw [heq] at hmax hbit
      rcases (hbits t.2 hmax).mp hbit with hold | hoverlap
      · exact .inl ⟨set, hget, hmax, hold⟩
      · exact .inr ⟨set.blank, h.net hget, hmax, hoverlap⟩
    · intro ht
      have hget : ∃ set, sets[t.1]? = some set ∧ t.2 < set.max_cidrs ∧
          (set.inner.bit t.2 = true ∨
            ¬Disjoint svc.addresses (set.index_to_cidr_block t.2).addresses) := by
        rcases ht with ⟨set, hget, hmax, hbit⟩ | ⟨net, hnet, hmax, hoverlap⟩
        · exact ⟨set, hget, hmax, .inl hbit⟩
        · rw [← h.frame, getElem?_map] at hnet
          obtain ⟨set, hget, rfl⟩ := Option.map_eq_some_iff.mp hnet
          exact ⟨set, hget, hmax, .inr hoverlap⟩
      obtain ⟨set, hget, hmax, hcases⟩ := hget
      obtain ⟨s, -, heq, hbits⟩ := hset set (h.sound set (mem_of_getElem? hget))
      refine ⟨{ set with inner := s }, ?_, hmax, (hbits t.2 hmax).mpr hcases⟩
      rw [filter_out_service_range, getElem?_map, hget, Option.map_some, heq]

theorem foldl_filter_spec (services : List IpNet) (h : Framed nets sets) :
    Framed nets (services.foldl filter_out_service_range sets) ∧
      live sets ⊆ live (services.foldl filter_out_service_range sets) ∧
      ∀ svc ∈ services, tokens nets svc ⊆ live (services.foldl filter_out_service_range sets) := by
  induction services generalizing sets with
  | nil => exact ⟨h, subset_rfl, nofun⟩
  | cons svc _ ih =>
    obtain ⟨hframed, hlive⟩ := filter_out_service_range_spec h svc
    obtain ⟨hfold, hgrows, htokens⟩ := ih hframed
    rw [hlive] at hgrows
    refine ⟨hfold, subset_union_left.trans hgrows, ?_⟩
    exact forall_mem_cons.mpr ⟨subset_union_right.trans hgrows, htokens⟩

theorem overlap_of_get_indices {set : CidrSet} {c : IpNet} {bounds : Nat × Nat}
    (h : set.get_indices c = .ok bounds) : ¬Disjoint c.addresses set.cluster.addresses := by
  unfold CidrSet.get_indices at h
  by_cases hfamily : c.family = set.cluster.family
  swap
  · rw [if_pos hfamily] at h
    cases h
  rw [if_neg (not_not.mpr hfamily)] at h
  rw [not_disjoint_iff]
  by_cases hcluster : c.network &&& set.net_mask set.cluster.prefix_len = set.cluster.network
  · exact ⟨_, c.network_mem, hfamily, (CidrSet.cluster_contains_iff hfamily).mp hcluster⟩
  by_cases hcidr : set.cluster.network &&& set.net_mask c.prefix_len = c.network
  · exact ⟨_, ⟨hfamily.symm, (CidrSet.cidr_contains_iff hfamily).mp hcidr⟩,
      set.cluster.network_mem⟩
  · rw [if_pos ⟨hcluster, hcidr⟩] at h
    cases h

theorem item_tokens_nonempty (h : Framed nets sets) {item : Item}
    (hok : occupy_cidr sets item = some sets') : (item_tokens nets item).Nonempty := by
  obtain ⟨set, hset, hok⟩ := Option.bind_eq_some_iff.mp hok
  obtain ⟨set', hset', -⟩ := Option.bind_eq_some_iff.mp hok
  have hindices : ∃ bounds, set.get_indices item.2 = .ok bounds := by
    unfold CidrSet.occupy at hset'
    cases hbounds : set.get_indices item.2 with
    | ok bounds => exact ⟨bounds, rfl⟩
    | error e =>
      rw [hbounds] at hset'
      cases hset'
  obtain ⟨bounds, hbounds⟩ := hindices
  obtain ⟨b, hb⟩ := exists_token (h.net hset) (overlap_of_get_indices hbounds)
  exact ⟨(item.1, b), hb, rfl⟩

/-- **The CIDRs of the nodes** are occupied, each in its set. -/
theorem foldlM_occupy_spec {items : List Item} (h : Framed nets sets)
    (hok : items.foldlM occupy_cidr sets = some sets') :
    Framed nets sets' ∧ live sets ⊆ live sets' ∧ ∀ item ∈ items,
      item_tokens nets item ⊆ live sets' ∧ (item_tokens nets item).Nonempty := by
  refine Folds.foldlM_forall (R := fun sets sets' => live sets ⊆ live sets')
    (H := fun sets item => item_tokens nets item ⊆ live sets ∧ (item_tokens nets item).Nonempty)
    (fun _ => subset_rfl) (fun _ _ _ => Subset.trans) ?_ ?_ h hok
  · intro sets sets' item hgrows hitem
    exact ⟨hitem.1.trans hgrows, hitem.2⟩
  · intro sets item sets' _ h hsets'
    obtain ⟨hframed, hlive⟩ := occupy_cidr_spec h hsets'
    rw [hlive]
    exact ⟨hframed, subset_union_left, subset_union_right, item_tokens_nonempty h hsets'⟩

theorem foldlM_occupy_nodes_spec {nodes : List Node} (h : Framed nets sets)
    (hok : nodes.foldlM occupy_cidrs sets = some sets') :
    Framed nets sets' ∧ live sets ⊆ live sets' ∧ ∀ node ∈ nodes,
      ∀ item ∈ enumerate (node_pod_cidrs node),
        item_tokens nets item ⊆ live sets' ∧ (item_tokens nets item).Nonempty := by
  refine Folds.foldlM_forall (R := fun sets sets' => live sets ⊆ live sets')
    (H := fun sets node => ∀ item ∈ enumerate (node_pod_cidrs node),
      item_tokens nets item ⊆ live sets ∧ (item_tokens nets item).Nonempty)
    (fun _ => subset_rfl) (fun _ _ _ => Subset.trans) ?_ ?_ h hok
  · intro sets sets' node hgrows hnode item hitem
    exact ⟨(hnode item hitem).1.trans hgrows, (hnode item hitem).2⟩
  · intro sets node sets' _ h hsets'
    exact foldlM_occupy_spec h hsets'

end construction

/-! ### Runs -/

/-- What the allocator is made for: nodes whose pod CIDRs are disjoint, apart from the
    service CIDRs, and not narrower than a node's block. -/
structure WellPlaced (cfg : NodeIpamConfig) (nodes : List Node) : Prop where
  apart : ∀ node ∈ nodes, ∀ node' ∈ nodes, node.name ≠ node'.name →
    ∀ c ∈ node_pod_cidrs node, ∀ c' ∈ node_pod_cidrs node', Disjoint c.addresses c'.addresses
  services : ∀ node ∈ nodes, ∀ c ∈ node_pod_cidrs node, ∀ svc ∈ cfg.service_cidrs,
    Disjoint c.addresses svc.addresses
  wide : ∀ node ∈ nodes, ∀ c ∈ node_pod_cidrs node,
    ∀ p ∈ cfg.cluster_cidrs.zip cfg.node_masks, c.family = p.1.family → c.prefix_len ≤ p.2

section runs

variable {ω : Type} [DecidableEq ω] {cfg : NodeIpamConfig} {nodes : List Node} {s : State ω}
  {nets : List CidrSet}

theorem find_node_spec {name : String} {node : Node} (h : find_node nodes name = some node) :
    node ∈ nodes ∧ node.name = name := by
  have hname := find?_some h
  exact ⟨mem_of_find?_eq_some h, of_decide_eq_true hname⟩

/-- **The allocator as made**: the blocks of the services and of the nodes are taken. -/
theorem new_spec {sets : List CidrSet} (hnets : create_sets cfg = some nets)
    (h : new cfg nodes = some sets) :
    Framed nets sets ∧ (∀ svc ∈ cfg.service_cidrs, tokens nets svc ⊆ live sets) ∧
      ∀ node ∈ nodes, node_tokens nets node ⊆ live sets ∧ Placed nets node := by
  obtain ⟨hcreated, hfamilies, -⟩ := create_sets_spec hnets
  unfold new at h
  rw [hnets] at h
  obtain ⟨hfiltered, -, hservices⟩ := foldl_filter_spec cfg.service_cidrs hcreated
  obtain ⟨hframed, hlive, hnodes⟩ := foldlM_occupy_nodes_spec hfiltered h
  refine ⟨hframed, fun svc hsvc => (hservices svc hsvc).trans hlive, ?_⟩
  intro node hnode
  have hitem : ∀ c ∈ node_pod_cidrs node, ∃ item ∈ enumerate (node_pod_cidrs node), item.2 = c ∧
      tokens nets c ⊆ item_tokens nets item ∧ item_tokens nets item ⊆ live sets ∧
        (tokens nets c).Nonempty := by
    intro c hc
    obtain ⟨item, hmem, rfl⟩ := mem_enumerate hc
    obtain ⟨hsub, hsome⟩ := hnodes node hnode item hmem
    exact ⟨item, hmem, rfl, tokens_of_item hfamilies hsome, hsub, hsome.mono fun t ht => ht.1⟩
  refine ⟨?_, ?_, ?_⟩
  · intro t ⟨c, hc, ht⟩
    obtain ⟨item, -, -, hsub, hlive', -⟩ := hitem c hc
    exact hlive' (hsub ht)
  · intro c hc
    obtain ⟨item, -, -, -, -, hmeets⟩ := hitem c hc
    exact hmeets
  · -- they are of different sets
    intro c hc c' hc' hne
    obtain ⟨item, hmem, rfl, hsub, -, -⟩ := hitem c hc
    obtain ⟨item', hmem', rfl, hsub', -, -⟩ := hitem c' hc'
    refine disjoint_left.mpr ?_
    intro t ht ht'
    have hindex := (hsub ht).2.symm.trans (hsub' ht').2
    exact hne (congrArg Prod.snd (inj_on_of_nodup_map (nodup_enumerate _) hmem hmem' hindex))

theorem own_init (h : (range_allocator ω cfg nodes).init s) {i : Owner ω} {t : Token}
    (ht : t ∈ own cfg.service_cidrs nets s i) :
    (i = .services ∧ ∃ svc ∈ cfg.service_cidrs, t ∈ tokens nets svc) ∨
      ∃ node ∈ nodes, find_node nodes node.name = some node ∧ i = .node node.name node.uid ∧
        t ∈ node_tokens nets node := by
  obtain ⟨-, hstored, hknown, -, hidle, -, -, hpending, hreleasing⟩ := h
  cases i with
  | services => exact .inl ⟨rfl, ht⟩
  | worker w =>
    obtain ⟨item, hmem, -⟩ := ht
    rw [hidle w] at hmem
    nomatch hmem
  | loop =>
    obtain ⟨item, hmem, -⟩ := ht
    rw [hreleasing] at hmem
    nomatch hmem
  | node name uid =>
    obtain ⟨node, hnode, rfl, ht⟩ := ht
    have hfound : find_node nodes name = some node := by
      rw [mem_state_copies, hstored, hknown, hpending] at hnode
      rcases hnode with hfound | hfound | hnil
      · exact hfound
      · exact hfound
      · nomatch hnil
    obtain ⟨hmem, rfl⟩ := find_node_spec hfound
    exact .inr ⟨node, hmem, hfound, rfl, ht⟩

/-- **At the start** the blocks are apart. -/
theorem owned_init (hplaced : WellPlaced cfg nodes) (hnets : create_sets cfg = some nets)
    (h : (range_allocator ω cfg nodes).init s) : Owned cfg.service_cidrs nets s := by
  obtain ⟨hframed, hservices, hnodes⟩ := new_spec hnets h.1
  obtain ⟨-, -, hmasks⟩ := create_sets_spec hnets
  have hown := fun (i : Owner ω) (t : Token) (ht : t ∈ own cfg.service_cidrs nets s i) =>
    own_init h ht
  obtain ⟨-, hstored, -, -, hidle, -, -, -, hreleasing⟩ := h
  -- a node shares no block with what it is disjoint from
  have happart : ∀ node ∈ nodes, ∀ c ∈ node_pod_cidrs node, ∀ c', Disjoint c.addresses c'.addresses →
      Disjoint (tokens nets c) (tokens nets c') := fun node hnode c hc c' =>
    disjoint_tokens_of_wide fun set hset => hplaced.wide node hnode c hc _ (hmasks set hset)
  refine ⟨hframed, ⟨?_, ?_⟩, ?_, ?_, ?_, ?_⟩
  · intro i t ht
    rcases hown i t ht with ⟨-, svc, hsvc, ht⟩ | ⟨node, hnode, -, -, ht⟩
    · exact hservices svc hsvc ht
    · exact (hnodes node hnode).1 ht
  · intro i j hne
    refine disjoint_left.mpr ?_
    intro t hi hj
    rcases hown i t hi with ⟨rfl, svc, hsvc, ht⟩ | ⟨node, hnode, hfound, rfl, c, hc, ht⟩ <;>
      rcases hown j t hj with ⟨rfl, svc', hsvc', ht'⟩ | ⟨node', hnode', hfound', rfl, c', hc', ht'⟩
    · exact hne rfl
    · exact (happart node' hnode' c' hc' svc
        (hplaced.services node' hnode' c' hc' svc hsvc)).notMem_of_mem_left ht' ht
    · exact (happart node hnode c hc svc'
        (hplaced.services node hnode c hc svc' hsvc')).notMem_of_mem_left ht ht'
    · by_cases hname : node.name = node'.name
      · rw [hname, hfound'] at hfound
        cases hfound
        exact hne rfl
      · exact (happart node hnode c hc c'
          (hplaced.apart node hnode node' hnode' hname c hc c' hc')).notMem_of_mem_left ht ht'
  · intro w item hmem
    rw [hidle w] at hmem
    nomatch hmem
  · intro w
    rw [hidle w]
    exact nodup_nil
  · rw [hreleasing]
    exact .nil
  · intro name node hnode
    rw [hstored] at hnode
    exact (hnodes node (find_node_spec hnode).1).2

/-- **Along every careful run** the blocks are apart. -/
theorem owned_of_exec (hplaced : WellPlaced cfg nodes) {tr : List (Label ω)}
    (h : ExecWhen (range_allocator ω cfg nodes) (fun _ s l => Careful s l) tr s) :
    ∃ nets, create_sets cfg = some nets ∧ Owned cfg.service_cidrs nets s := by
  refine ExecWhen.invariant (J := fun _ s => Timelines s)
    (I := fun _ s => ∃ nets, create_sets cfg = some nets ∧ Owned cfg.service_cidrs nets s)
    (fun tr s hexec => timelines_of_reachable ⟨tr, hexec⟩) ?_ ?_ h
  · intro s hinit
    obtain ⟨nets, hnets, -⟩ := Option.bind_eq_some_iff.mp hinit.1
    exact ⟨nets, hnets, owned_init hplaced hnets hinit⟩
  · intro tr s l s' htimelines ⟨nets, hnets, howned⟩ hcareful hstep
    obtain ⟨-, hfamilies, -⟩ := create_sets_spec hnets
    exact ⟨nets, hnets, (turn_of_next hstep.2).owned hfamilies hcareful hstep.1 htimelines howned⟩

/-- **No two nodes share a pod CIDR**: along every careful run from nodes that are well
    placed, the pod CIDRs of the nodes in the storage are pairwise disjoint, and disjoint
    from the service CIDRs that overlap a cluster CIDR. -/
theorem pod_cidrs_disjoint (hplaced : WellPlaced cfg nodes) {tr : List (Label ω)}
    (h : ExecWhen (range_allocator ω cfg nodes) (fun _ s l => Careful s l) tr s) :
    (∀ name node name' node', s.stored name = some node → s.stored name' = some node' →
      ∀ c ∈ node_pod_cidrs node, ∀ c' ∈ node_pod_cidrs node', name ≠ name' ∨ c ≠ c' →
        Disjoint c.addresses c'.addresses) ∧
    ∀ name node, s.stored name = some node → ∀ c ∈ node_pod_cidrs node,
      ∀ svc ∈ cfg.service_cidrs, (∃ cluster ∈ cfg.cluster_cidrs,
        ¬Disjoint svc.addresses cluster.addresses) → Disjoint c.addresses svc.addresses := by
  obtain ⟨nets, hnets, howned⟩ := owned_of_exec hplaced h
  obtain ⟨-, hfamilies, hmasks⟩ := create_sets_spec hnets
  have hown : ∀ name node, s.stored name = some node → ∀ c ∈ node_pod_cidrs node,
      tokens nets c ⊆ own cfg.service_cidrs nets s (.node name node.uid) :=
    fun name node hnode c hc t ht => ⟨node, mem_state_copies.mpr (.inl hnode), rfl, c, hc, ht⟩
  constructor
  · intro name node name' node' hnode hnode' c hc c' hc' hne
    have hplaced := howned.placed name node hnode
    have hplaced' := howned.placed name' node' hnode'
    refine disjoint_of_tokens hfamilies (hplaced.meets c hc) (hplaced'.meets c' hc') ?_
    by_cases hname : name = name'
    · subst hname
      rw [hnode] at hnode'
      cases hnode'
      exact hplaced.within c hc c' hc' (hne.resolve_left fun hne => hne rfl)
    · have howners : (Owner.node name node.uid : Owner ω) ≠ .node name' node'.uid :=
        fun heq => hname (Owner.node.inj heq).1
      exact (howned.apart.disjoint _ _ howners).mono (hown name node hnode c hc)
        (hown name' node' hnode' c' hc')
  · intro name node hnode c hc svc hsvc ⟨cluster, hcluster, hoverlap⟩
    have hmeets := (howned.placed name node hnode).meets c hc
    by_contra hshare
    obtain ⟨x, hx, hx'⟩ := not_disjoint_iff.mp hshare
    obtain ⟨t, ht⟩ := hmeets
    obtain ⟨set, hset, -, hfamily, -⟩ := net_of_mem_tokens ht
    -- the cluster CIDR that the service CIDR overlaps is the one of its family
    have heq : cluster = set.cluster := by
      obtain ⟨y, hy, hy'⟩ := not_disjoint_iff.mp hoverlap
      have hmem := (of_mem_zip (hmasks set (mem_of_getElem? hset))).1
      refine inj_on_of_nodup_map cfg.families hcluster hmem ?_
      rw [← hfamily, ← hy'.1, hy.1, ← hx'.1, hx.1]
    rw [heq] at hoverlap
    have howners : (Owner.node name node.uid : Owner ω) ≠ .services := by simp
    have hservice : tokens nets svc ⊆ own cfg.service_cidrs nets s .services :=
      fun t ht => ⟨svc, hsvc, ht⟩
    obtain ⟨b, hb⟩ := exists_token hset hoverlap
    refine hshare (disjoint_of_tokens hfamilies ⟨t, ht⟩ ⟨_, hb⟩ ?_)
    exact (howned.apart.disjoint _ _ howners).mono (hown name node hnode c hc) hservice

end runs

namespace Sample

/-- Steps that are taken as they are computed. -/
def take (ok : Label Unit → Bool) (s : State Unit) (l : Label Unit) : Option (State Unit) :=
  if ok l then next s l else none

def listless : Label Unit → Bool
  | .relist _ => false
  | _ => true

theorem allowed_of_listless {s : State Unit} {l : Label Unit} (h : listless l = true) :
    l.allowed s := by
  cases l with
  | relist gone => nomatch h
  | _ => exact trivial

/-- A worker gives CIDRs of one set to a node, up to the patch. -/
def serve (name : String) : List (Label Unit) :=
  [.create name, .sync () name, .get () false, .allocate (), .allocate (), .fetch () false]

def start (sets : List CidrSet) (nodes : List Node) : State Unit where
  sets := sets
  stored := find_node nodes
  issued := nodes.length
  worker := fun _ => .idle
  known := find_node nodes
  watching := false
  listed := false
  pending := fun _ => []
  releasing := []

/-- **A run that is computed** is one of the allocator. -/
theorem exists_exec (cfg : NodeIpamConfig) (nodes : List Node) (ls : List (Label Unit))
    (ok : List (Label Unit) → State Unit → Label Unit → Prop) (check : Label Unit → Bool)
    (hcheck : ∀ tr s l, check l = true → ok tr s l ∧ l.allowed s)
    (huids : ∀ node ∈ nodes, node.uid < nodes.length) {p : State Unit → Bool}
    (h : ((new cfg nodes).any fun sets =>
      (ls.foldlM (take check) (start sets nodes)).any p) = true) :
    ∃ s, ExecWhen (range_allocator Unit cfg nodes) ok (ls.reverse ++ []) s ∧ p s = true := by
  obtain ⟨sets, hsets, hrun⟩ := (Option.any_eq_true _ _).mp h
  obtain ⟨s, hs, hp⟩ := (Option.any_eq_true _ _).mp hrun
  have hinit : (range_allocator Unit cfg nodes).init (start sets nodes) :=
    ⟨hsets, rfl, rfl, huids, fun _ => rfl, rfl, rfl, rfl, rfl⟩
  refine ⟨s, ExecWhen.run (take check) ?_ (.init hinit) ls hs, hp⟩
  intro tr s l s' hnext
  unfold take at hnext
  split_ifs at hnext with hl
  obtain ⟨hok, hallowed⟩ := hcheck tr s l hl
  exact ⟨hok, hallowed, hnext⟩

/-- Whether two nodes have these CIDRs. -/
def have_cidrs (c c' : IpNet) (s : State Unit) : Bool :=
  (s.stored "a").any (fun node => node_pod_cidrs node = [c]) &&
    (s.stored "b").any fun node => node_pod_cidrs node = [c']

theorem have_cidrs_spec {c c' : IpNet} {s : State Unit} (h : have_cidrs c c' s = true) :
    ∃ node node', s.stored "a" = some node ∧ node_pod_cidrs node = [c] ∧
      s.stored "b" = some node' ∧ node_pod_cidrs node' = [c'] := by
  obtain ⟨ha, hb⟩ := Bool.and_eq_true_iff.mp h
  obtain ⟨node, hnode, hcidrs⟩ := (Option.any_eq_true _ _).mp ha
  obtain ⟨node', hnode', hcidrs'⟩ := (Option.any_eq_true _ _).mp hb
  exact ⟨node, node', hnode, of_decide_eq_true hcidrs, hnode', of_decide_eq_true hcidrs'⟩

/-- One block. -/
def narrow : NodeIpamConfig := ⟨[cluster], [24], [], by decide⟩

/-- A patch goes through although it fails on the network, and fails twice more. -/
def lost_patch : List (Label Unit) :=
  serve "a" ++ [.patch () (.network true), .patch () .failed, .patch () .failed, .release ()] ++
    serve "b" ++ [.patch () .ok]

end Sample

/-- A patch went through although it failed on the network; the attempts after it fail in
    other ways, the block is released, and the next node gets it as well. -/
theorem lost_patch_shares_cidr :
    ∃ tr s node node', Exec (range_allocator Unit Sample.narrow []) tr s ∧
      s.stored "a" = some node ∧ s.stored "b" = some node' ∧
      ∃ c ∈ node_pod_cidrs node, ∃ c' ∈ node_pod_cidrs node',
        ¬Disjoint c.addresses c'.addresses := by
  obtain ⟨s, hexec, hcidrs⟩ := Sample.exists_exec Sample.narrow [] Sample.lost_patch
    (fun _ _ _ => True) Sample.listless
    (p := Sample.have_cidrs Sample.cluster Sample.cluster)
    (fun tr s l hl => ⟨trivial, Sample.allowed_of_listless hl⟩)
    (nofun) (by decide +kernel)
  obtain ⟨node, node', hnode, hcidrs, hnode', hcidrs'⟩ := Sample.have_cidrs_spec hcidrs
  refine ⟨_, s, node, node', hexec.exec, hnode, hnode', Sample.cluster, ?_, Sample.cluster, ?_, ?_⟩
  · rw [hcidrs]
    exact .head _
  · rw [hcidrs']
    exact .head _
  · rw [not_disjoint_iff]
    exact ⟨_, Sample.cluster.network_mem, Sample.cluster.network_mem⟩

namespace Sample

/-- `10.0.1.0/25`. -/
def service : IpNet := ⟨.v4, 167772416, 25, by decide, by decide⟩

/-- `10.0.2.0/24`. -/
def third : IpNet := ⟨.v4, 167772672, 24, by decide, cluster.prefix_le⟩

/-- Four blocks, one of which the services overlap. -/
def wide : NodeIpamConfig :=
  ⟨[⟨.v4, 167772160, 22, cluster.addr_lt, by decide⟩], [24], [service], by decide⟩

def first : Node := { name := "a", uid := 0, pod_cidr := some cluster, pod_cidrs := some [cluster] }

def plain : Label Unit → Bool
  | .relist _ => false
  | .patch _ (.network true) => false
  | _ => true

theorem careful_of_plain {s : State Unit} {l : Label Unit} (h : plain l = true) : Careful s l := by
  cases l with
  | relist gone => nomatch h
  | patch w outcome =>
    cases outcome with
    | network applied =>
      cases applied with
      | true => nomatch h
      | false => exact trivial
    | _ => exact trivial
  | _ => exact trivial

theorem listless_of_plain {l : Label Unit} (h : plain l = true) : listless l = true := by
  cases l with
  | relist gone => exact h
  | _ => rfl

theorem well_placed : WellPlaced wide [first] := by
  have hcidrs : ∀ node ∈ [first], ∀ c ∈ node_pod_cidrs node, c = cluster := by decide
  constructor
  · intro node hnode node' hnode' hname
    rw [mem_singleton.mp hnode, mem_singleton.mp hnode'] at hname
    exact absurd rfl hname
  · intro node hnode c hc svc hsvc
    rw [hcidrs node hnode c hc, mem_singleton.mp hsvc]
    refine IpNet.disjoint_of_contains ?_ ?_ <;> decide
  · intro node hnode c hc p hp _
    rw [hcidrs node hnode c hc, mem_singleton.mp hp]
    decide

end Sample

/-- A new node gets a block that neither the first node nor the services have. -/
theorem created_node_has_own_cidr :
    ∃ tr s node node', ExecWhen (range_allocator Unit Sample.wide [Sample.first])
        (fun _ s l => Careful s l) tr s ∧
      s.stored "a" = some node ∧ node_pod_cidrs node = [Sample.cluster] ∧
      s.stored "b" = some node' ∧ node_pod_cidrs node' = [Sample.third] ∧
      Disjoint Sample.cluster.addresses Sample.third.addresses ∧
      Disjoint Sample.third.addresses Sample.service.addresses := by
  obtain ⟨s, hexec, hcidrs⟩ := Sample.exists_exec Sample.wide [Sample.first]
    (Sample.serve "b" ++ [.patch () .ok]) (fun _ s l => Careful s l) Sample.plain
    (p := Sample.have_cidrs Sample.cluster Sample.third)
    (fun tr s l hl => ⟨Sample.careful_of_plain hl,
      Sample.allowed_of_listless (Sample.listless_of_plain hl)⟩) (by decide) (by decide +kernel)
  obtain ⟨node, node', hnode, hcidrs, hnode', hcidrs'⟩ := Sample.have_cidrs_spec hcidrs
  obtain ⟨hnodes, hservices⟩ := pod_cidrs_disjoint Sample.well_placed hexec
  have hmem : Sample.cluster ∈ node_pod_cidrs node := hcidrs ▸ .head _
  have hmem' : Sample.third ∈ node_pod_cidrs node' := hcidrs' ▸ .head _
  refine ⟨_, s, node, node', hexec, hnode, hcidrs, hnode', hcidrs', ?_, ?_⟩
  · exact hnodes "a" node "b" node' hnode hnode' _ hmem _ hmem' (.inl (by decide))
  · refine hservices "b" node' hnode' _ hmem' _ (.head _) ⟨_, .head _, ?_⟩
    rw [not_disjoint_iff]
    exact ⟨_, Sample.service.network_mem, rfl, by decide⟩

end NodeIpam
