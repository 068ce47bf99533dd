import Rusternetes.NodeGraph.Effects

/-! # The Node Authorizer's Graph: The Destination Index

    The index of a vertex is exact when it counts, for every node, the edges of
    the vertex that lead to it. Adding an edge that was not there and dropping the
    edges to a deleted vertex keep every index exact.
-/

open Framework List

namespace NodeGraph

namespace GraphInner

variable {g : GraphInner}

/-! ### Exact indices -/

/-- Where the edges from `i` that lead to `d` go. -/
def heads (g : GraphInner) (i d : Nat) : Set Nat :=
  {b | g.edge_between i b = some ⟨i, b, some d⟩}

def Exact (g : GraphInner) : Prop :=
  ∀ i s, g.destination_edge_index.lookup i = some s → ∀ d, s.count d = (g.heads i d).ncard

theorem new_exact (threshold : Nat) : (new threshold).Exact := by
  intro i s hs
  simp [new] at hs

theorem WF.heads_finite (h : g.WF) (i d : Nat) : (g.heads i d).Finite := by
  refine (g.neighbors_from i).toFinset.finite_toSet.subset fun b hb => ?_
  rw [Finset.mem_coe, mem_toFinset]
  exact ((h.neighbors_from_spec _).2 _).mpr ⟨some d, hb⟩

/-- Replacing the index keeps a graph well formed. -/
theorem WF.reindex (h : g.WF) {idx : AList (fun _ : Nat => IntSet)}
    (hidx : ∀ i s, idx.lookup i = some s → (g.nodes.lookup i).isSome = true) :
    { g with destination_edge_index := idx }.WF := { h with indexed := hidx }

/-! ### Dropping edges -/

/-- What dropping the edge `e` takes from the count for `d` at `i`. -/
def weight (i d : Nat) (e : Edge) : Bool := decide (e.from_id = i ∧ e.destination = some d)

theorem remove_edge_from_destination_index_spec (g : GraphInner) (e : Edge) :
    ∃ idx, g.remove_edge_from_destination_index e = { g with destination_edge_index := idx } ∧
      ∀ i s', idx.lookup i = some s' → ∃ s, g.destination_edge_index.lookup i = some s ∧
        ∀ d, s'.count d = s.count d - if weight i d e then 1 else 0 := by
  have hother : ∀ i d, i ≠ e.from_id → weight i d e = false := by
    intro i d hi
    simp [weight, Ne.symm hi]
  simp only [remove_edge_from_destination_index]
  split_ifs with hdeg
  · refine ⟨_, rfl, fun i s' hs' => ?_⟩
    obtain ⟨hi, hs'⟩ := Table.lookup_erase_eq_some.mp hs'
    exact ⟨s', hs', fun d => by simp [hother i d hi]⟩
  · split
    · rename_i s dest hs hdest
      refine ⟨_, rfl, fun i s' hs' => ?_⟩
      obtain ⟨rfl, rfl⟩ | ⟨hi, hs'⟩ := Table.lookup_insert_eq_some.mp hs'
      · refine ⟨s, hs, fun d => ?_⟩
        rw [IntSet.count_decrement]
        by_cases hd : d = dest
        · simp [weight, hd, hdest]
        · simp [weight, hd, hdest, Ne.symm hd]
      · exact ⟨s', hs', fun d => by simp [hother i d hi]⟩
    · rename_i hnone
      refine ⟨g.destination_edge_index, rfl, fun i s' hs' => ⟨s', hs', fun d => ?_⟩⟩
      have hw : weight i d e = false := by
        by_contra hw
        simp only [weight, Bool.not_eq_false, decide_eq_true_eq] at hw
        rw [← hw.1] at hs'
        exact hnone s' d hs' hw.2
      simp [hw]

theorem drop_edges_spec (es : List Edge) (g : GraphInner) :
    ∃ idx, es.foldl remove_edge_from_destination_index g =
        { g with destination_edge_index := idx } ∧
      ∀ i s', idx.lookup i = some s' → ∃ s, g.destination_edge_index.lookup i = some s ∧
        ∀ d, s'.count d = s.count d - es.countP (weight i d) := by
  induction es generalizing g with
  | nil => exact ⟨g.destination_edge_index, rfl, fun i s' hs' => ⟨s', hs', fun d => by simp⟩⟩
  | cons e rest ih =>
    obtain ⟨idx, heq, hidx⟩ := remove_edge_from_destination_index_spec g e
    obtain ⟨idx', heq', hidx'⟩ := ih { g with destination_edge_index := idx }
    refine ⟨idx', by rw [foldl_cons, heq, heq'], fun i s' hs' => ?_⟩
    obtain ⟨s₁, hs₁, hcount₁⟩ := hidx' i s' hs'
    obtain ⟨s, hs, hcount⟩ := hidx i s₁ hs₁
    refine ⟨s, hs, fun d => ?_⟩
    rw [hcount₁, hcount, countP_cons]
    omega

/-! ### Counting edges -/

/-- What an edge to `b` adds to the count for `d` at `n`. -/
def leads_to (g : GraphInner) (n d b : Nat) : Bool :=
  decide ((g.edge_between n b).bind (·.destination) = some d)

theorem count_foldl_count_edge (n : Nat) (bs : List Nat) (s : IntSet) (d : Nat) :
    (bs.foldl (g.count_edge n) s).count d = s.count d + bs.countP (g.leads_to n d) := by
  induction bs generalizing s with
  | nil => simp
  | cons b rest ih =>
    rw [foldl_cons, ih, countP_cons]
    have hone : (g.count_edge n s b).count d = s.count d + if g.leads_to n d b then 1 else 0 := by
      unfold count_edge leads_to
      cases hb : (g.edge_between n b).bind (·.destination) with
      | none => simp
      | some dest =>
        simp only [IntSet.count_increment, Option.some.injEq, decide_eq_true_eq]
        by_cases hd : d = dest
        · simp [hd]
        · simp [hd, Ne.symm hd]
    omega

theorem WF.countP_neighbors_from (h : g.WF) (n d : Nat) :
    (g.neighbors_from n).countP (g.leads_to n d) = (g.heads n d).ncard := by
  have hset : g.heads n d = ↑((g.neighbors_from n).filter (g.leads_to n d)).toFinset := by
    ext b
    simp only [coe_toFinset, mem_filter, Set.mem_ofPred_eq, heads, leads_to,
      decide_eq_true_eq, (h.neighbors_from_spec _).2]
    constructor
    · intro he
      exact ⟨⟨_, he⟩, by rw [he]; rfl⟩
    · rintro ⟨⟨dest, he⟩, hdest⟩
      rw [he] at hdest ⊢
      exact congrArg (fun x => some (Edge.mk n b x)) hdest
  rw [hset, Set.ncard_coe_finset,
    toFinset_card_of_nodup ((h.neighbors_from_spec n).1.filter _), countP_eq_length_filter]

/-! ### Adding edges -/

theorem add_edge_to_destination_index_spec (h : g.WF) (e : Edge) :
    ∃ idx, g.add_edge_to_destination_index e = { g with destination_edge_index := idx } ∧
      ∀ i s', idx.lookup i = some s' →
        (i ≠ e.from_id ∧ g.destination_edge_index.lookup i = some s') ∨
        (i = e.from_id ∧ g.destination_edge_index.lookup i = none ∧
          ∀ d, s'.count d = (g.heads i d).ncard) ∨
        (i = e.from_id ∧ ∃ s, g.destination_edge_index.lookup i = some s ∧
          ∀ d, s'.count d = s.count d + if e.destination = some d then 1 else 0) := by
  simp only [add_edge_to_destination_index]
  cases hs : g.destination_edge_index.lookup e.from_id with
  | none =>
    simp only [recompute_destination_index]
    split_ifs with hdeg
    · exact ⟨_, rfl, fun i s' hs' => .inl (Table.lookup_erase_eq_some.mp hs')⟩
    · refine ⟨_, rfl, fun i s' hs' => ?_⟩
      obtain ⟨rfl, rfl⟩ | hs' := Table.lookup_insert_eq_some.mp hs'
      · -- the index is counted anew
        refine .inr (.inl ⟨rfl, hs, fun d => ?_⟩)
        rw [count_foldl_count_edge, h.countP_neighbors_from, IntSet.count_empty, Nat.zero_add]
      · exact .inl hs'
  | some s =>
    cases hdest : e.destination with
    | none =>
      refine ⟨g.destination_edge_index, rfl, fun i s' hs' => ?_⟩
      by_cases hi : i = e.from_id
      · exact .inr (.inr ⟨hi, s', hs', fun d => by simp⟩)
      · exact .inl ⟨hi, hs'⟩
    | some dest =>
      refine ⟨_, rfl, fun i s' hs' => ?_⟩
      obtain ⟨rfl, rfl⟩ | hs' := Table.lookup_insert_eq_some.mp hs'
      · refine .inr (.inr ⟨rfl, s, hs, fun d => ?_⟩)
        rw [IntSet.count_increment]
        by_cases hd : d = dest
        · simp [hd]
        · simp [hd, Ne.symm hd]
      · exact .inl hs'

variable {e : Edge}

/-- The edges from a vertex that `e` does not start at stay, unless `e` takes the
    place of one in the other direction. -/
theorem Linked.heads_ne {g' : GraphInner} (hl : Linked g e g')
    (hforward : ∀ e', g.edge_between e.to_id e.from_id = some e' → e'.from_id = e.from_id) {i : Nat}
    (hi : i ≠ e.from_id) (d : Nat) : g'.heads i d = g.heads i d := by
  ext b
  simp only [heads, Set.mem_ofPred_eq, hl.edge, hi, false_and, false_or]
  split_ifs with hback
  · obtain ⟨rfl, rfl⟩ := hback
    constructor
    · intro he
      exact absurd (congrArg Edge.from_id (Option.some.inj he)).symm hi
    · intro he
      exact absurd (hforward _ he) hi
  · rfl

theorem Linked.heads_from {g' : GraphInner} (hl : Linked g e g') (hne : e.from_id ≠ e.to_id)
    (d : Nat) :
    g'.heads e.from_id d =
      if e.destination = some d then insert e.to_id (g.heads e.from_id d)
      else g.heads e.from_id d \ {e.to_id} := by
  ext b
  simp only [heads, Set.mem_ofPred_eq, hl.edge, true_and, hne, false_and, or_false]
  by_cases hb : b = e.to_id
  · subst hb
    have hiff : (some e = some (Edge.mk e.from_id e.to_id (some d))) ↔ e.destination = some d := by
      obtain ⟨f, t, dest⟩ := e
      simp
    rw [if_pos rfl, hiff]
    split_ifs with hd
    · simp [hd]
    · simp [hd]
  · split_ifs
    · simp [hb]
    · simp [hb]

/-- What adding an edge needs: its ends are vertices, it does not turn an edge
    around, an edge that knows its node is new, and one that does not is from a
    vertex that is searched. -/
structure Addable (g : GraphInner) (e : Edge) : Prop where
  ne : e.from_id ≠ e.to_id
  from_vertex : (g.nodes.lookup e.from_id).isSome = true
  to_vertex : (g.nodes.lookup e.to_id).isSome = true
  forward : ∀ e', g.edge_between e.to_id e.from_id = some e' → e' = e
  searched : e.destination = none → ∀ v, g.nodes.lookup e.from_id = some v →
    v.key.vertex_type.has_authoritative_index = false

/-- `add_edge` does not fail, and adds the edge. -/
theorem add_edge_spec (h : g.WF) (ha : Addable g e) :
    ∃ g', g.add_edge e.from_id e.to_id e.destination = some g' ∧ g'.WF ∧ Linked g e g' ∧
      (g.Exact → (e.destination ≠ none → g.edge_between e.from_id e.to_id = none) → g'.Exact) := by
  obtain ⟨g₁, hset, hl, hindex, -⟩ := set_edge_linked ha.ne ha.from_vertex ha.to_vertex
  have hwf₁ : g₁.WF := hl.wf ha.ne ha.from_vertex ha.to_vertex h fun i s hi =>
    h.indexed i s (hindex ▸ hi)
  have hforward : ∀ e', g.edge_between e.to_id e.from_id = some e' → e'.from_id = e.from_id := by
    intro e' he'
    rw [ha.forward e' he']
  have hkept : ∀ i, i ≠ e.from_id → ∀ d, (g₁.heads i d).ncard = (g.heads i d).ncard := by
    intro i hi d
    rw [hl.heads_ne hforward hi]
  cases hdest : e.destination with
  | none =>
    -- the index is not touched: no counted edge is added or lost
    refine ⟨g₁, ?_, hwf₁, hl, fun hexact _ i s hs d => ?_⟩
    · obtain ⟨v, hv⟩ := Option.isSome_iff_exists.mp ha.from_vertex
      have hee : (⟨e.from_id, e.to_id, none⟩ : Edge) = e := by rw [← hdest]
      simp only [add_edge, hv, ha.searched hdest v hv, Bool.false_eq_true, if_false, hee, hset]
    · rw [hexact i s (hindex ▸ hs) d]
      by_cases hi : i = e.from_id
      · subst hi
        have hno : e.to_id ∉ g.heads e.from_id d := by
          intro hb
          have heq := ha.forward _ (h.sym _ _ _ hb)
          rw [← heq] at hdest
          cases hdest
        rw [hl.heads_from ha.ne, hdest, if_neg (by simp), Set.sdiff_singleton_eq_self hno]
      · rw [hkept i hi]
  | some dest =>
    obtain ⟨idx, heq, hidx⟩ := add_edge_to_destination_index_spec hwf₁ e
    refine ⟨{ g₁ with destination_edge_index := idx }, ?_, ?_, ?_, ?_⟩
    · have hee : (⟨e.from_id, e.to_id, some dest⟩ : Edge) = e := by rw [← hdest]
      simp [add_edge, hee, hset, Option.map_some, heq]
    · refine hwf₁.reindex fun i s' hs' => ?_
      rcases hidx i s' hs' with ⟨_, hs⟩ | ⟨rfl, _⟩ | ⟨_, s, hs, _⟩
      · exact hwf₁.indexed i s' hs
      · rw [hl.nodes]
        exact ha.from_vertex
      · exact hwf₁.indexed i s hs
    · exact { hl with }
    · intro hexact hnew i s' hs' d
      show s'.count d = (g₁.heads i d).ncard
      rcases hidx i s' hs' with ⟨hi, hs⟩ | ⟨rfl, _, hcount⟩ | ⟨rfl, s, hs, hcount⟩
      · rw [hkept i hi]
        exact hexact i s' (hindex ▸ hs) d
      · exact hcount d
      · -- the edge is counted once, and was not there before
        have hno : e.to_id ∉ g.heads e.from_id d := by
          intro hb
          rw [heads, Set.mem_ofPred_eq, hnew (by simp)] at hb
          cases hb
        rw [hcount d, hexact e.from_id s (hindex ▸ hs) d, hl.heads_from ha.ne]
        split_ifs
        · rw [Set.ncard_insert_of_notMem hno (h.heads_finite _ _)]
        · rw [Set.sdiff_singleton_eq_self hno, Nat.add_zero]

/-! ### Deleting a vertex -/

variable {v : Nat}

theorem WF.mem_orphans (h : g.WF) {n : Nat} :
    n ∈ g.orphans v ↔ g.degree n = 1 ∧ (g.edge_between v n).isSome = true := by
  simp only [orphans, mem_append, mem_filter, (h.neighbors_from_spec _).2,
    (h.neighbors_to_spec _).2, decide_eq_true_eq, ← or_and_right]
  rw [and_comm, Option.isSome_iff_exists]
  refine and_congr_right fun _ => ⟨?_, ?_⟩
  · rintro (⟨dest, he⟩ | ⟨dest, he⟩)
    · exact ⟨_, he⟩
    · exact ⟨_, he⟩
  · rintro ⟨⟨f, t, dest⟩, he⟩
    rcases h.ends v n _ he with ⟨rfl, rfl⟩ | ⟨rfl, rfl⟩
    · exact .inl ⟨dest, he⟩
    · exact .inr ⟨dest, he⟩

/-- An orphan of `v` has its only edge with `v`. -/
theorem WF.orphan_edge (h : g.WF) {n b : Nat} (hn : n ∈ g.orphans v)
    (he : g.edge_between n b = some e) : b = v := by
  obtain ⟨hdeg, hsome⟩ := h.mem_orphans.mp hn
  obtain ⟨e', he'⟩ := Option.isSome_iff_exists.mp hsome
  exact eq_of_degree_one hdeg (h.sym v n e' he') he

theorem WF.countP_dropped_edges (h : g.WF) {i : Nat} (hi : i ∉ g.orphans v) (d : Nat) :
    (v ∈ g.heads i d → (g.dropped_edges v).countP (weight i d) = 1) ∧
      (v ∉ g.heads i d → (g.dropped_edges v).countP (weight i d) = 0) := by
  have hpred : ∀ b ∈ (g.neighbors_to v).filter (fun n => g.degree n ≠ 1),
      (((g.edge_between v b).map (weight i d)).getD false = true ↔
        b = i ∧ v ∈ g.heads i d) := by
    intro b hb
    obtain ⟨dest, he⟩ := ((h.neighbors_to_spec _).2 _).mp (mem_filter.mp hb).1
    simp only [he, Option.map_some, Option.getD_some, weight, decide_eq_true_eq]
    refine and_congr_right fun hbi => ?_
    subst hbi
    rw [heads, Set.mem_ofPred_eq, h.sym v b _ he]
    simp
  unfold dropped_edges
  rw [countP_filterMap]
  refine ⟨fun hv => ?_, fun hv => ?_⟩
  · have hmem : i ∈ (g.neighbors_to v).filter (fun n => g.degree n ≠ 1) := by
      have he : g.edge_between v i = some ⟨i, v, some d⟩ := h.sym i v _ hv
      rw [mem_filter, decide_eq_true_eq]
      refine ⟨((h.neighbors_to_spec _).2 _).mpr ⟨_, he⟩, fun hdeg => hi ?_⟩
      exact h.mem_orphans.mpr ⟨hdeg, by rw [he]; rfl⟩
    rw [countP_congr (q := fun b => b == i) fun b hb => by
      rw [hpred b hb, beq_iff_eq]
      exact and_iff_left hv]
    exact count_eq_one_of_mem ((h.neighbors_to_spec v).1.filter _) hmem
  · exact countP_eq_zero.mpr fun b hb hp => hv ((hpred b hb).mp hp).2

/-- `g'` is `g` without the vertex `v` and the vertices it leaves alone. -/
structure Deleted (g : GraphInner) (v : Nat) (g' : GraphInner) : Prop where
  wf : g'.WF
  vertices : ∀ k a, g'.vertices.lookup k = some a ↔
    g.vertices.lookup k = some a ∧ a ≠ v ∧ a ∉ g.orphans v
  edge : ∀ x y, g'.edge_between x y = if x = v ∨ y = v then none else g.edge_between x y
  exact_of : g.Exact → g'.Exact

theorem delete_vertex_deleted (h : g.WF) {k : Key} (hk : g.vertices.lookup k = some v) :
    Deleted g v (g.delete_vertex k) := by
  have hdel : g.delete_vertex k = (g.dropped_edges v).foldl remove_edge_from_destination_index
      ((v :: g.orphans v).foldl remove_vertex g) := by
    unfold delete_vertex
    rw [h.get_vertex_id_eq, hk, foldl_cons]
  have hr := removed_all h (v :: g.orphans v)
  rw [hdel]
  generalize (v :: g.orphans v).foldl remove_vertex g = g₁ at hr
  obtain ⟨idx, heq, hidx⟩ := drop_edges_spec (g.dropped_edges v) g₁
  rw [heq]
  have hedge : ∀ x y, g₁.edge_between x y =
      if x = v ∨ y = v then none else g.edge_between x y := by
    intro x y
    rw [hr.edge]
    simp only [mem_cons]
    by_cases hv : x = v ∨ y = v
    · have hmem : (x = v ∨ x ∈ g.orphans v) ∨ y = v ∨ y ∈ g.orphans v := by tauto
      rw [if_pos hmem, if_pos hv]
    split_ifs with hmem
    · -- one end is an orphan, whose only edge is with `v`
      push Not at hv
      cases he : g.edge_between x y with
      | none => rfl
      | some e =>
        rcases hmem with (hx | hx) | hy | hy
        · exact absurd hx hv.1
        · exact absurd (h.orphan_edge hx he) hv.2
        · exact absurd hy hv.2
        · exact absurd (h.orphan_edge hy (h.sym x y e he)) hv.1
    · rfl
  refine ⟨?_, fun k' a => ?_, hedge, fun hexact i s' hs' d => ?_⟩
  · refine hr.wf.reindex fun i s' hs' => ?_
    obtain ⟨s, hs, _⟩ := hidx i s' hs'
    exact hr.wf.indexed i s hs
  · show g₁.vertices.lookup k' = some a ↔ _
    rw [hr.vertices, mem_cons, not_or]
  · obtain ⟨s, hs, hcount⟩ := hidx i s' hs'
    rw [hr.index] at hs
    split_ifs at hs with hid
    rw [mem_cons, not_or] at hid
    show s'.count d = (g₁.heads i d).ncard
    have hheads : g₁.heads i d = g.heads i d \ {v} := by
      ext b
      simp only [heads, Set.mem_ofPred_eq, hedge, hid.1, false_or, Set.mem_sdiff,
        Set.mem_singleton_iff]
      by_cases hb : b = v
      · simp [hb]
      · simp [hb]
    obtain ⟨hone, hzero⟩ := h.countP_dropped_edges hid.2 d
    rw [hcount d, hexact i s hs d, hheads]
    by_cases hv : v ∈ g.heads i d
    · rw [hone hv, Set.ncard_sdiff_singleton_of_mem hv]
    · rw [hzero hv, Set.sdiff_singleton_eq_self hv, Nat.sub_zero]

end GraphInner

end NodeGraph
