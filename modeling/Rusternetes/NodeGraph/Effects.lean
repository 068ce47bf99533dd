import Rusternetes.NodeGraph.Shape

/-! # The Node Authorizer's Graph: What Each Function Changes

    For each function of `GraphInner` that writes: that it does not fail on a
    well-formed graph, that the result is well formed, and what its maps answer.
-/

open Framework List

namespace NodeGraph

namespace GraphInner

/-! ### Removing vertices -/

/-- `g'` is `g` without the vertices `ids` and their edges. -/
structure Removed (g : GraphInner) (ids : List Nat) (g' : GraphInner) : Prop where
  wf : g'.WF
  nodes : ∀ x, g'.nodes.lookup x = if x ∈ ids then none else g.nodes.lookup x
  vertices : ∀ k a, g'.vertices.lookup k = some a ↔ g.vertices.lookup k = some a ∧ a ∉ ids
  edge : ∀ x y, g'.edge_between x y = if x ∈ ids ∨ y ∈ ids then none else g.edge_between x y
  index : ∀ x, g'.destination_edge_index.lookup x =
    if x ∈ ids then none else g.destination_edge_index.lookup x
  threshold : g'.destination_edge_threshold = g.destination_edge_threshold

section Remove

variable {g : GraphInner}

theorem edge_between_remove_node (h : g.WF) {id : Nat} {v : NamedVertex}
    (hv : g.nodes.lookup id = some v) (x y : Nat) :
    (g.remove_node id).edge_between x y =
      if x = id ∨ y = id then none else g.edge_between x y := by
  unfold remove_node
  rw [hv, edge_between_eq, edge_between_eq]
  cases hm : g.edges.lookup id with
  | none =>
    -- no edges are stored under `id`, so none are stored for it elsewhere
    have hnone : ∀ z, g.edge_between id z = none := by
      intro z
      simp [edge_between, hm]
    split_ifs with hid
    · rcases hid with rfl | rfl
      · exact hnone y
      · exact (h.edge_comm x y).trans (hnone x)
    · rfl
  | some m =>
    rw [stored_foldl_forget, stored_erase]
    by_cases hx : x = id
    · simp [hx]
    · by_cases hy : y = id
      · subst hy
        simp only [hx, and_true, or_true, if_true, if_false]
        split_ifs with hmem
        · rfl
        · -- `x` is not among the neighbours
          show g.edge_between x y = none
          rw [h.edge_comm, edge_between, hm]
          exact AList.lookup_eq_none.mpr hmem
      · simp [hx, hy]

theorem remove_vertex_removed (h : g.WF) (id : Nat) : Removed g [id] (g.remove_vertex id) := by
  cases hv : g.nodes.lookup id with
  | none =>
    have hsame : g.remove_vertex id = g := by
      unfold remove_vertex
      rw [hv]
    rw [hsame]
    refine ⟨h, fun x => ?_, fun k a => ?_, fun x y => ?_, fun x => ?_, rfl⟩
    · simp only [mem_singleton]
      split_ifs with hx
      · rw [hx, hv]
      · rfl
    · refine ⟨fun hk => ⟨hk, ?_⟩, fun hk => hk.1⟩
      simp only [mem_singleton]
      rintro rfl
      rw [(h.named k a).mp hk] at hv
      cases hv
    · simp only [mem_singleton]
      split_ifs with hid
      · rcases hid with rfl | rfl
        · exact h.edge_absent hv y
        · exact (h.edge_comm x y).trans (h.edge_absent hv x)
      · rfl
    · simp only [mem_singleton]
      split_ifs with hx
      · subst hx
        cases hi : g.destination_edge_index.lookup x with
        | none => rfl
        | some s => exact absurd (h.indexed x s hi) (by simp [hv])
      · rfl
  | some v =>
    have hkey : g.vertices.lookup v.key = some id := by
      rw [h.named, hv, ← h.node_id id v hv]
    have hnodes : ∀ x, (g.remove_vertex id).nodes.lookup x =
        if x = id then none else g.nodes.lookup x := by
      intro x
      simp only [remove_vertex, remove_node, hv]
      exact Table.lookup_erase_ite _ id x
    have hvertices : ∀ k a, (g.remove_vertex id).vertices.lookup k = some a ↔
        g.vertices.lookup k = some a ∧ a ≠ id := by
      intro k a
      simp only [remove_vertex, remove_node, hv]
      by_cases hk : k = v.key
      · subst hk
        rw [AList.lookup_erase, hkey]
        simp only [reduceCtorEq, Option.some.injEq, false_iff, not_and, not_not]
        exact fun heq => heq.symm
      · rw [AList.lookup_erase_ne hk]
        refine ⟨fun hlook => ⟨hlook, ?_⟩, fun hlook => hlook.1⟩
        rintro rfl
        exact hk (h.injective hlook hkey)
    have hedge : ∀ x y, (g.remove_vertex id).edge_between x y =
        if x = id ∨ y = id then none else g.edge_between x y := by
      intro x y
      rw [← edge_between_remove_node h hv]
      simp only [remove_vertex, hv]
      rfl
    have hindex : ∀ x, (g.remove_vertex id).destination_edge_index.lookup x =
        if x = id then none else g.destination_edge_index.lookup x := by
      intro x
      simp only [remove_vertex, remove_node, hv]
      exact Table.lookup_erase_ite _ id x
    have hused : ∀ x, x ∈ (g.remove_vertex id).used_ids ↔ x ≠ id ∧ x ∈ g.used_ids := by
      intro x
      simp [remove_vertex, remove_node, hv]
    have hfree : ∀ x, x ∈ (g.remove_vertex id).free_ids ↔ x = id ∨ x ∈ g.free_ids := by
      intro x
      simp [remove_vertex, remove_node, hv]
    have hkept : ∀ x y e, (g.remove_vertex id).edge_between x y = some e →
        x ≠ id ∧ y ≠ id ∧ g.edge_between x y = some e := by
      intro x y e he
      rw [hedge] at he
      split_ifs at he with hid
      push Not at hid
      exact ⟨hid.1, hid.2, he⟩
    refine ⟨⟨?_, ?_, ?_, ?_, ?_, ?_, ?_, ?_, ?_⟩, ?_, ?_, ?_, ?_, ?_⟩
    · intro k a
      rw [hvertices, hnodes, h.named]
      by_cases ha : a = id
      · simp [ha]
      · simp [ha]
    · intro a w hw
      rw [hnodes] at hw
      split_ifs at hw
      exact h.node_id a w hw
    · intro a b e he
      obtain ⟨ha, hb, he⟩ := hkept a b e he
      rw [hedge, if_neg (by simp [ha, hb])]
      exact h.sym a b e he
    · intro a b e he
      exact h.ends a b e (hkept a b e he).2.2
    · intro a
      rw [hedge, h.loopless, ite_self]
    · intro a b e he
      obtain ⟨ha, _, he⟩ := hkept a b e he
      rw [hnodes, if_neg ha]
      exact h.present a b e he
    · intro a
      rw [hused, hnodes, h.used]
      by_cases ha : a = id
      · simp [ha]
      · simp [ha]
    · intro a ha
      rw [hnodes]
      rcases (hfree a).mp ha with rfl | ha
      · exact if_pos rfl
      · rw [h.free a ha, ite_self]
    · intro i s hi
      rw [hindex] at hi
      split_ifs at hi with hid
      rw [hnodes, if_neg hid]
      exact h.indexed i s hi
    · simpa only [mem_singleton] using hnodes
    · simpa only [mem_singleton] using hvertices
    · simpa only [mem_singleton] using hedge
    · simpa only [mem_singleton] using hindex
    · simp [remove_vertex, remove_node, hv]

theorem removed_all (h : g.WF) (ids : List Nat) : Removed g ids (ids.foldl remove_vertex g) := by
  induction ids generalizing g with
  | nil => exact ⟨h, by simp, by simp, by simp, by simp, rfl⟩
  | cons id rest ih =>
    have hone := remove_vertex_removed h id
    have hrest := ih hone.wf
    rw [foldl_cons]
    refine ⟨hrest.wf, fun x => ?_, fun k a => ?_, fun x y => ?_, fun x => ?_,
      hrest.threshold.trans hone.threshold⟩
    · rw [hrest.nodes, hone.nodes]
      by_cases hx : x = id <;> simp [hx]
    · rw [hrest.vertices, hone.vertices, mem_singleton, mem_cons]
      tauto
    · rw [hrest.edge, hone.edge]
      by_cases hx : x = id <;> by_cases hy : y = id <;> simp [hx, hy]
    · rw [hrest.index, hone.index]
      by_cases hx : x = id <;> simp [hx]

end Remove

/-! ### Creating vertices -/

variable {g : GraphInner}

theorem new_node_id_fresh (h : g.WF) : g.nodes.lookup g.new_node_id.2 = none := by
  have hunused : ∀ a, a ∉ g.used_ids → g.nodes.lookup a = none := by
    intro a ha
    cases hn : g.nodes.lookup a with
    | none => rfl
    | some v => exact absurd ((h.used a).mpr (by rw [hn]; rfl)) ha
  have hfree : ∀ hne : g.free_ids.Nonempty, g.nodes.lookup (g.free_ids.min' hne) = none :=
    fun hne => h.free _ (Finset.min'_mem _ hne)
  have hmax : ∀ hne : g.used_ids.Nonempty, g.nodes.lookup (g.used_ids.max' hne + 1) = none := by
    intro hne
    refine hunused _ fun hmem => ?_
    have hle := Finset.le_max' _ _ hmem
    omega
  generalize hid : g.new_node_id.2 = id
  unfold new_node_id at hid
  by_cases hempty : g.nodes.entries.isEmpty = true
  · have hnil : g.nodes.entries = [] := isEmpty_iff.mp hempty
    simp [AList.lookup, hnil]
  split_ifs at hid with hne hused
  · exact hid ▸ hfree hne
  · exact hid ▸ hmax hused
  · exact hid ▸ hunused 0 fun hmem => hused ⟨0, hmem⟩

/-- `g'` is `g` with a new vertex `id` for `k`. -/
structure Created (g : GraphInner) (k : Key) (g' : GraphInner) (id : Nat) : Prop where
  wf : g'.WF
  fresh : g.nodes.lookup id = none
  nodes : ∀ x, g'.nodes.lookup x = if x = id then some ⟨k, id⟩ else g.nodes.lookup x
  vertices : ∀ k', g'.vertices.lookup k' = if k' = k then some id else g.vertices.lookup k'
  edge : ∀ x y, g'.edge_between x y = g.edge_between x y
  index : g'.destination_edge_index = g.destination_edge_index

theorem create_vertex_created (h : g.WF) {k : Key} (hk : g.vertices.lookup k = none) :
    ∃ g' id, g.create_vertex k = some (g', id) ∧ Created g k g' id := by
  have hfresh := new_node_id_fresh h
  -- the id is taken from the free ones, or is new to both sets
  obtain ⟨hsame, hused, hfree⟩ : (∃ ids, g.new_node_id.1 = { g with free_ids := ids }) ∧
      g.new_node_id.1.used_ids = g.used_ids ∧ g.new_node_id.1.free_ids ⊆ g.free_ids := by
    unfold new_node_id
    split_ifs
    · exact ⟨⟨g.free_ids, rfl⟩, rfl, subset_rfl⟩
    · exact ⟨⟨_, rfl⟩, rfl, Finset.erase_subset _ _⟩
    · exact ⟨⟨g.free_ids, rfl⟩, rfl, subset_rfl⟩
    · exact ⟨⟨g.free_ids, rfl⟩, rfl, subset_rfl⟩
  obtain ⟨ids, hids⟩ := hsame
  unfold create_vertex
  generalize g.new_node_id = r at hfresh hids hused hfree
  obtain ⟨g₁, id⟩ := r
  subst hids
  refine ⟨{ g with
    vertices := g.vertices.insert k id
    nodes := g.nodes.insert id ⟨k, id⟩
    edges := g.edges.insert id ∅
    free_ids := ids.erase id
    used_ids := insert id g.used_ids }, id, ?_, ?_⟩
  · simp only [add_node, hfresh, Option.isSome_none, Bool.false_eq_true, if_false, Option.map_some]
  have hnodes : ∀ x, (g.nodes.insert id ⟨k, id⟩).lookup x =
      if x = id then some ⟨k, id⟩ else g.nodes.lookup x :=
    Table.lookup_insert_ite g.nodes id ⟨k, id⟩
  have hvertices : ∀ k', (g.vertices.insert k id).lookup k' =
      if k' = k then some id else g.vertices.lookup k' :=
    Table.lookup_insert_ite g.vertices k id
  have hedges : ∀ x y, stored (g.edges.insert id ∅) x y = g.edge_between x y := by
    intro x y
    rw [stored_insert_empty]
    split_ifs with hx
    · exact hx ▸ (h.edge_absent hfresh y).symm
    · rfl
  refine ⟨⟨?_, ?_, ?_, ?_, ?_, ?_, ?_, ?_, ?_⟩, hfresh, hnodes, hvertices, hedges, rfl⟩
  · intro k' a
    simp only [hnodes, hvertices]
    by_cases hk' : k' = k
    · subst hk'
      by_cases ha : a = id
      · simp [ha]
      · have hno : ¬ g.nodes.lookup a = some ⟨k', a⟩ := by
          rw [← h.named, hk]
          simp
        simp [ha, hno, Ne.symm ha]
    · by_cases ha : a = id
      · subst ha
        have hno : ¬ g.vertices.lookup k' = some a := by
          rw [h.named, hfresh]
          simp
        simp [hk', hno, Ne.symm hk']
      · simp [hk', ha, h.named]
  · intro a v hv
    simp only [hnodes] at hv
    split_ifs at hv with ha
    · cases hv
      exact ha.symm
    · exact h.node_id a v hv
  · intro a b e he
    rw [edge_between_eq] at he ⊢
    rw [hedges] at he ⊢
    exact h.sym a b e he
  · intro a b e he
    rw [edge_between_eq, hedges] at he
    exact h.ends a b e he
  · intro a
    rw [edge_between_eq, hedges]
    exact h.loopless a
  · intro a b e he
    rw [edge_between_eq, hedges] at he
    simp only [hnodes]
    split_ifs
    · rfl
    · exact h.present a b e he
  · intro a
    simp only [hnodes, Finset.mem_insert, h.used]
    by_cases ha : a = id <;> simp [ha]
  · intro a ha
    obtain ⟨hne, hmem⟩ := Finset.mem_erase.mp ha
    simp only [hnodes, if_neg hne]
    exact h.free a (hfree hmem)
  · intro i s hi
    simp only [hnodes]
    split_ifs
    · rfl
    · exact h.indexed i s hi

/-! ### Setting edges -/

/-- `g'` is `g` with the edge `e`; of the index, nothing is said. -/
structure Linked (g : GraphInner) (e : Edge) (g' : GraphInner) : Prop where
  nodes : g'.nodes = g.nodes
  vertices : g'.vertices = g.vertices
  edge : ∀ x y, g'.edge_between x y =
    if (x = e.from_id ∧ y = e.to_id) ∨ (x = e.to_id ∧ y = e.from_id) then some e
    else g.edge_between x y
  free : g'.free_ids = g.free_ids
  used : g'.used_ids = g.used_ids

variable {e : Edge} (hne : e.from_id ≠ e.to_id)
  (hfrom : (g.nodes.lookup e.from_id).isSome = true)
  (hto : (g.nodes.lookup e.to_id).isSome = true)

include hne hfrom hto

theorem set_edge_linked :
    ∃ g', g.set_edge e = some g' ∧ Linked g e g' ∧
      g'.destination_edge_index = g.destination_edge_index ∧
      g'.destination_edge_threshold = g.destination_edge_threshold := by
  obtain ⟨v, hv⟩ := Option.isSome_iff_exists.mp hfrom
  obtain ⟨w, hw⟩ := Option.isSome_iff_exists.mp hto
  refine ⟨{ g with edges := put (put g.edges e.from_id e.to_id e) e.to_id e.from_id e }, ?_,
    ⟨rfl, rfl, fun x y => ?_, rfl, rfl⟩, rfl, rfl⟩
  · simp [set_edge, hne, hv, hw]
  · rw [edge_between_eq, edge_between_eq, stored_put, stored_put]
    by_cases h1 : x = e.to_id ∧ y = e.from_id
    · simp [h1]
    · by_cases h2 : x = e.from_id ∧ y = e.to_id
      · simp [h2]
      · simp [h1, h2]

/-- An edge between two vertices keeps the graph well formed. -/
theorem Linked.wf {g' : GraphInner} (hl : Linked g e g') (h : g.WF)
    (hindex : ∀ i s, g'.destination_edge_index.lookup i = some s →
      (g.nodes.lookup i).isSome = true) : g'.WF := by
  refine ⟨?_, ?_, ?_, ?_, ?_, ?_, ?_, ?_, ?_⟩
  · intro k a
    rw [hl.nodes, hl.vertices]
    exact h.named k a
  · intro a v
    rw [hl.nodes]
    exact h.node_id a v
  · intro a b e'
    rw [hl.edge, hl.edge]
    have hcomm : (b = e.from_id ∧ a = e.to_id) ∨ (b = e.to_id ∧ a = e.from_id) ↔
        (a = e.from_id ∧ b = e.to_id) ∨ (a = e.to_id ∧ b = e.from_id) := by tauto
    simp only [hcomm]
    split_ifs
    · exact fun h => h
    · exact h.sym a b e'
  · intro a b e' he
    rw [hl.edge] at he
    split_ifs at he with hab
    · cases he
      rcases hab with ⟨rfl, rfl⟩ | ⟨rfl, rfl⟩
      · exact .inl ⟨rfl, rfl⟩
      · exact .inr ⟨rfl, rfl⟩
    · exact h.ends a b e' he
  · intro a
    rw [hl.edge, if_neg]
    · exact h.loopless a
    · rintro (⟨rfl, heq⟩ | ⟨rfl, heq⟩)
      · exact hne heq
      · exact hne heq.symm
  · intro a b e' he
    rw [hl.edge] at he
    rw [hl.nodes]
    split_ifs at he with hab
    · rcases hab with ⟨rfl, _⟩ | ⟨rfl, _⟩
      · exact hfrom
      · exact hto
    · exact h.present a b e' he
  · intro a
    rw [hl.used, hl.nodes]
    exact h.used a
  · intro a
    rw [hl.free, hl.nodes]
    exact h.free a
  · intro i s hi
    rw [hl.nodes]
    exact hindex i s hi

end GraphInner

end NodeGraph
