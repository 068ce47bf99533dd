import Rusternetes.NodeGraph.Links

/-! # The Node Authorizer's Graph: Paths to a Node

    On a graph that mirrors a set of relationships, `has_path_from` answers from
    the relationships: whether it takes the answer from an index or searches makes
    no difference.
-/

open Framework

namespace NodeGraph

open GraphInner

/-- Relationships without a node lead to one with the node. -/
def Relationships.Reaches (L : Relationships) (start : Key) (n : String) : Prop :=
  ∃ t, Relation.ReflTransGen (fun x y => L x y none) start t ∧ ∃ u, L t u (some n)

namespace GraphInner

namespace WF

variable {g : GraphInner} (h : g.WF) {i a b : Nat}
include h

theorem follows_iff : Search.Follows g.neighbors_from (g.arc i) a b ↔
    g.edge_between a b = some ⟨a, b, none⟩ := by
  unfold Search.Follows
  rw [(h.neighbors_from_spec _).2]
  constructor
  · rintro ⟨⟨dest, he⟩, harc⟩
    unfold arc at harc
    rw [he] at harc ⊢
    cases dest with
    | none => rfl
    | some j =>
      simp only [Option.bind_some] at harc
      split_ifs at harc
  · intro he
    refine ⟨⟨none, he⟩, ?_⟩
    unfold arc
    rw [he]
    rfl

theorem hits_iff : Search.Hits g.neighbors_from (g.arc i) i a ↔
    (∃ b, g.edge_between a b = some ⟨a, b, some i⟩) ∨ g.edge_between a i = some ⟨a, i, none⟩ := by
  constructor
  · rintro ⟨b, hb, hhit | ⟨hfollow, rfl⟩⟩
    · obtain ⟨dest, he⟩ := ((h.neighbors_from_spec _).2 _).mp hb
      unfold arc at hhit
      rw [he] at hhit
      cases dest with
      | none => cases hhit
      | some j =>
        simp only [Option.bind_some] at hhit
        split_ifs at hhit with hj
        exact .inl ⟨b, by rw [he, hj]⟩
    · exact .inr (h.follows_iff.mp ⟨hb, hfollow⟩)
  · rintro (⟨b, he⟩ | he)
    · refine ⟨b, ((h.neighbors_from_spec _).2 _).mpr ⟨_, he⟩, .inl ?_⟩
      unfold arc
      rw [he]
      exact if_pos rfl
    · obtain ⟨hmem, hfollow⟩ := h.follows_iff.mpr he
      exact ⟨i, hmem, .inr ⟨hfollow, rfl⟩⟩

end WF

namespace Mirrors

variable {g : GraphInner} {L : Relationships} {spare : Set Key} (h : Mirrors g L spare)
include h

/-! ### Edges and relationships -/

variable {a : Nat} {k : Key} (hk : g.vertices.lookup k = some a)
include hk

theorem edge_none_iff {k' : Key} {b : Nat} (hk' : g.vertices.lookup k' = some b) :
    g.edge_between a b = some ⟨a, b, none⟩ ↔ L k k' none := by
  constructor
  · intro he
    obtain ⟨d, hd, hL⟩ := h.edge_link hk hk' he
    rwa [(leads_none_iff hd).mp rfl] at hL
  · intro hL
    obtain ⟨a', b', dest, ha, hb, he, hd⟩ := (h.link_iff k k' none).mpr hL
    rw [hk] at ha
    rw [hk'] at hb
    cases ha
    cases hb
    rwa [(leads_none_iff hd).mpr rfl] at he

theorem follows_path_iff {i t : Nat} :
    Relation.ReflTransGen (Search.Follows g.neighbors_from (g.arc i)) a t ↔
      ∃ x, g.vertices.lookup x = some t ∧ Relation.ReflTransGen (fun x y => L x y none) k x := by
  constructor
  · intro hpath
    induction hpath with
    | refl => exact ⟨k, hk, .refl⟩
    | tail _ hstep ih =>
      obtain ⟨x, hx, hreach⟩ := ih
      have he := h.wf.follows_iff.mp hstep
      obtain ⟨_, y, _, hy⟩ := h.exists_keys he
      exact ⟨y, hy, hreach.tail ((h.edge_none_iff hx hy).mp he)⟩
  · rintro ⟨x, hx, hreach⟩
    induction hreach generalizing t with
    | refl =>
      rw [hk] at hx
      cases hx
      exact .refl
    | tail _ hL ih =>
      obtain ⟨s, _, _, hs, _⟩ := (h.link_iff _ _ none).mpr hL
      exact (ih hs).tail (h.wf.follows_iff.mpr ((h.edge_none_iff hs hx).mpr hL))

variable {i : Nat} {n : String} (hi : g.vertices.lookup (node_key n) = some i)
include hi

/-- Some edge leads to the node of `i`. -/
theorem exists_edge_some_iff :
    (∃ b, g.edge_between a b = some ⟨a, b, some i⟩) ↔ ∃ u, L k u (some n) := by
  constructor
  · rintro ⟨b, he⟩
    obtain ⟨_, u, _, hu⟩ := h.exists_keys he
    obtain ⟨d, hd, hL⟩ := h.edge_link hk hu he
    have hdn : d = some n := h.wf.leads_left_unique hd hi
    exact ⟨u, hdn ▸ hL⟩
  · rintro ⟨u, hL⟩
    obtain ⟨a', b, dest, ha, _, he, hd⟩ := (h.link_iff k u (some n)).mpr hL
    obtain ⟨j, rfl, hj⟩ := leads_some hd
    rw [hk] at ha
    rw [hi] at hj
    cases ha
    cases hj
    exact ⟨b, he⟩

/-! ### The search and the index -/

theorem walk_iff (hL : Regular L) : g.walk i a = true ↔ k = node_key n ∨ L.Reaches k n := by
  have hself : a = i ↔ k = node_key n := by
    constructor
    · rintro rfl
      exact h.wf.injective hk hi
    · rintro rfl
      exact Option.some.inj (hk.symm.trans hi)
  unfold walk
  rw [Bool.or_eq_true, decide_eq_true_eq, hself]
  by_cases hne : k = node_key n
  · simp [hne]
  simp only [hne, false_or]
  have hmem : ∀ {x}, x ∈ g.nodes.keys.toFinset ↔ (g.nodes.lookup x).isSome = true := by
    intro x
    rw [List.mem_toFinset, AList.lookup_isSome, AList.mem_keys]
  have hclosed : ∀ t ∈ g.nodes.keys.toFinset, ∀ b ∈ g.neighbors_from t,
      b ∈ g.nodes.keys.toFinset := by
    intro t _ b hb
    obtain ⟨dest, he⟩ := ((h.wf.neighbors_from_spec _).2 _).mp hb
    exact hmem.mpr (h.wf.present b t _ (h.wf.sym t b _ he))
  have hstart : a ∈ g.nodes.keys.toFinset := by
    rw [hmem, (h.wf.named k a).mp hk]
    rfl
  rw [Search.walk_iff hclosed hstart (fun heq => hne (hself.mp heq))]
  -- the search ends at an edge with the node, since no other goes to a node
  constructor
  · rintro ⟨t, hpath, hhits⟩
    obtain ⟨x, hx, hreach⟩ := (h.follows_path_iff hk).mp hpath
    refine ⟨x, hreach, ?_⟩
    rcases h.wf.hits_iff.mp hhits with hedge | he
    · exact (h.exists_edge_some_iff hx hi).mp hedge
    · exact absurd rfl (hL.inner x (node_key n) ((h.edge_none_iff hx hi).mp he))
  · rintro ⟨x, hreach, u, hu⟩
    obtain ⟨t, _, _, hx, _⟩ := (h.link_iff x u (some n)).mpr hu
    refine ⟨t, (h.follows_path_iff hk).mpr ⟨x, hx, hreach⟩, h.wf.hits_iff.mpr (.inl ?_)⟩
    exact (h.exists_edge_some_iff hx hi).mpr ⟨u, hu⟩

theorem index_has_iff {s : IntSet} (hs : g.destination_edge_index.lookup a = some s) :
    s.has i = true ↔ ∃ u, L k u (some n) := by
  rw [← h.exists_edge_some_iff hk hi, IntSet.has, decide_eq_true_eq, h.counted a s hs i, gt_iff_lt,
    Set.ncard_pos (h.wf.heads_finite a i)]
  rfl

omit hk hi in
theorem has_path_from_iff (hL : Regular L) (n : String) (k : Key) :
    g.has_path_from n k = .ok true ↔
      (g.vertices.lookup (node_key n)).isSome = true ∧ k = node_key n ∨ L.Reaches k n := by
  have hreaches : L.Reaches k n → (g.vertices.lookup (node_key n)).isSome = true ∧
      (g.vertices.lookup k).isSome = true := by
    rintro ⟨t, hreach, u, hu⟩
    have hn : (g.vertices.lookup (node_key n)).isSome = true := by
      obtain ⟨_, _, _, _, _, _, hd⟩ := (h.link_iff t u (some n)).mpr hu
      obtain ⟨j, _, hj⟩ := leads_some hd
      rw [hj]
      rfl
    refine ⟨hn, ?_⟩
    rcases hreach.cases_head with rfl | ⟨y, hy, _⟩
    · obtain ⟨a, _, _, ha, _⟩ := (h.link_iff k u (some n)).mpr hu
      rw [ha]
      rfl
    · obtain ⟨a, _, _, ha, _⟩ := (h.link_iff k y none).mpr hy
      rw [ha]
      rfl
  unfold has_path_from
  rw [h.wf.get_vertex_id_eq, h.wf.get_vertex_id_eq]
  cases hi : g.vertices.lookup (node_key n) with
  | none =>
    simp only [Option.isSome_none, Bool.false_eq_true, false_and, false_or, reduceCtorEq, false_iff]
    intro hr
    exact absurd (hreaches hr).1 (by simp [hi])
  | some i =>
    cases hk : g.vertices.lookup k with
    | none =>
      have hne : k ≠ node_key n := by
        rintro rfl
        rw [hi] at hk
        cases hk
      simp only [hne, and_false, false_or, reduceCtorEq, false_iff]
      intro hr
      exact absurd (hreaches hr).2 (by simp [hk])
    | some a =>
      simp only [Option.isSome_some, true_and]
      rw [← h.walk_iff hk hi hL]
      have hsearched : (if g.walk i a = true then Except.ok true
          else .error (no_relationship n k)) = .ok true ↔ g.walk i a = true := by
        split_ifs with hw
        · simp [hw]
        · simp [hw]
      cases hs : g.destination_edge_index.lookup a with
      | none => exact hsearched
      | some s =>
        simp only
        split_ifs with hhas hauth hw
        · -- the index answers, and the search would find the same edge
          obtain ⟨u, hu⟩ := (h.index_has_iff hk hi hs).mp hhas
          simp only [true_iff]
          exact (h.walk_iff hk hi hL).mpr (.inr ⟨k, .refl, u, hu⟩)
        · -- the index is all there is: every edge of the vertex knows its node
          simp only [false_iff]
          intro hw
          rcases (h.walk_iff hk hi hL).mp hw with rfl | ⟨t, hreach, u, hu⟩
          · cases hauth
          · rcases hreach.cases_head with rfl | ⟨y, hy, _⟩
            · exact hhas ((h.index_has_iff hk hi hs).mpr ⟨u, hu⟩)
            · rw [hL.searched k y hy] at hauth
              cases hauth
        · simp [hw]
        · simp [hw]

end Mirrors

end GraphInner

end NodeGraph
