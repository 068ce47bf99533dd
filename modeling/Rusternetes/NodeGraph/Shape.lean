import Mathlib
import Rusternetes.NodeGraph.Graph

/-! # The Node Authorizer's Graph: Well-Formed Graphs

    What every function of `GraphInner` keeps: names and ids belong together, an
    edge is stored under both its ends, ids that are free are not in use. On such
    a graph each function is described by what the maps answer afterwards.
-/

open List

namespace NodeGraph

open Framework GraphInner

/-! ### Maps of maps -/

section Maps

variable {edges : AList (fun _ : Nat => AList (fun _ : Nat => Edge))}

/-- What is stored under `x` for `y`. -/
def stored (edges : AList (fun _ : Nat => AList (fun _ : Nat => Edge))) (x y : Nat) :
    Option Edge :=
  (edges.lookup x).bind fun m => m.lookup y

theorem stored_put (a b : Nat) (e : Edge) (x y : Nat) :
    stored (put edges a b e) x y = if x = a ∧ y = b then some e else stored edges x y := by
  unfold stored put
  by_cases hx : x = a
  · subst hx
    rw [AList.lookup_insert]
    by_cases hy : y = b
    · subst hy
      simp
    · simp only [Option.bind_some, AList.lookup_insert_ne hy, hy, and_false, if_false]
      cases edges.lookup x <;> simp
  · simp [hx]

theorem stored_forget (id n x y : Nat) :
    stored (forget id edges n) x y = if x = n ∧ y = id then none else stored edges x y := by
  unfold stored forget
  cases hn : edges.lookup n with
  | none =>
    split_ifs with h
    · rw [h.1, hn]
      rfl
    · rfl
  | some held =>
    by_cases hx : x = n
    · subst hx
      rw [AList.lookup_insert, hn]
      by_cases hy : y = id
      · subst hy
        simp
      · simp [AList.lookup_erase_ne hy, hy]
    · simp [hx]

theorem stored_foldl_forget (id : Nat) (ns : List Nat) (x y : Nat) :
    stored (ns.foldl (forget id) edges) x y =
      if x ∈ ns ∧ y = id then none else stored edges x y := by
  induction ns generalizing edges with
  | nil => simp
  | cons n rest ih =>
    rw [foldl_cons, ih, stored_forget]
    by_cases hy : y = id
    · by_cases hx : x = n
      · simp [hx, hy]
      · simp [hx, hy]
    · simp [hy]

theorem stored_erase (id x y : Nat) :
    stored (edges.erase id) x y = if x = id then none else stored edges x y := by
  rw [stored, Table.lookup_erase_ite]
  split_ifs <;> rfl

theorem stored_insert_empty (id x y : Nat) :
    stored (edges.insert id ∅) x y = if x = id then none else stored edges x y := by
  rw [stored, Table.lookup_insert_ite]
  split_ifs <;> rfl

end Maps

namespace GraphInner

theorem edge_between_eq (g : GraphInner) (a b : Nat) : g.edge_between a b = stored g.edges a b := rfl

/-- What holds of every graph. -/
structure WF (g : GraphInner) : Prop where
  named : ∀ k a, g.vertices.lookup k = some a ↔ g.nodes.lookup a = some ⟨k, a⟩
  node_id : ∀ a v, g.nodes.lookup a = some v → v.id = a
  sym : ∀ a b e, g.edge_between a b = some e → g.edge_between b a = some e
  ends : ∀ a b e, g.edge_between a b = some e →
    (e.from_id = a ∧ e.to_id = b) ∨ (e.from_id = b ∧ e.to_id = a)
  loopless : ∀ a, g.edge_between a a = none
  present : ∀ a b e, g.edge_between a b = some e → (g.nodes.lookup a).isSome = true
  used : ∀ a, a ∈ g.used_ids ↔ (g.nodes.lookup a).isSome = true
  free : ∀ a ∈ g.free_ids, g.nodes.lookup a = none
  indexed : ∀ i s, g.destination_edge_index.lookup i = some s → (g.nodes.lookup i).isSome = true

theorem new_wf (threshold : Nat) : (new threshold).WF := by
  constructor <;> simp [new, edge_between]

namespace WF

variable {g : GraphInner}

theorem edge_comm (h : g.WF) (a b : Nat) : g.edge_between a b = g.edge_between b a :=
  Option.ext fun e => ⟨h.sym a b e, h.sym b a e⟩

variable {a : Nat}

theorem edge_absent (h : g.WF) (ha : g.nodes.lookup a = none) (b : Nat) :
    g.edge_between a b = none := by
  refine Option.eq_none_iff_forall_not_mem.mpr fun e he => ?_
  simpa [ha] using h.present a b e he

theorem get_vertex_id_eq (h : g.WF) (k : Key) : g.get_vertex_id k = g.vertices.lookup k := by
  unfold get_vertex_id
  cases hk : g.vertices.lookup k with
  | none => rfl
  | some a =>
    rw [Option.bind_some, (h.named k a).mp hk]
    rfl

theorem injective (h : g.WF) {k k' : Key} (hk : g.vertices.lookup k = some a)
    (hk' : g.vertices.lookup k' = some a) : k = k' := by
  have heq := ((h.named k a).mp hk).symm.trans ((h.named k' a).mp hk')
  exact (NamedVertex.mk.inj (Option.some.inj heq)).1

theorem exists_key (h : g.WF) (ha : (g.nodes.lookup a).isSome = true) :
    ∃ k, g.vertices.lookup k = some a := by
  obtain ⟨v, hv⟩ := Option.isSome_iff_exists.mp ha
  refine ⟨v.key, (h.named v.key a).mpr ?_⟩
  rw [hv, ← h.node_id a v hv]

/-! ### Neighbours -/

section

variable {n b : Nat} {e : Edge} {m : AList (fun _ : Nat => Edge)}

theorem edge_between_iff (hm : g.edges.lookup n = some m) :
    g.edge_between n b = some e ↔ ⟨b, e⟩ ∈ m.entries := by
  unfold edge_between
  rw [hm]
  exact AList.mem_lookup_iff

/-- An edge out of `n` leads to the other end, since no edge is a loop. -/
theorem eq_of_from (h : g.WF) (he : g.edge_between n b = some e) (hfrom : e.from_id = n) :
    e = ⟨n, b, e.destination⟩ := by
  rcases h.ends n b e he with ⟨_, hto⟩ | ⟨hf, _⟩
  · rw [← hfrom, ← hto]
  · rw [← hf, hfrom, h.loopless] at he
    cases he

/-- An edge into `n` comes from the other end. -/
theorem eq_of_to (h : g.WF) (he : g.edge_between n b = some e) (hto : e.to_id = n) :
    e = ⟨b, n, e.destination⟩ := by
  rcases h.ends n b e he with ⟨_, ht⟩ | ⟨hf, _⟩
  · rw [← ht, hto, h.loopless] at he
    cases he
  · rw [← hf, ← hto]

/-- The neighbours at the far ends of the edges of a vertex that have it as their `near`
    end: an edge is fixed by its ends and its destination (`edge`). -/
theorem neighbors_spec {near far : Edge → Nat} {edge : Nat → Option Nat → Edge}
    (hnear : ∀ b dest, near (edge b dest) = n) (hfar : ∀ b dest, far (edge b dest) = b)
    (hedge : ∀ {b e}, g.edge_between n b = some e → near e = n → e = edge b e.destination) :
    let ns := (g.edges.lookup n).elim [] fun m =>
      ((m.entries.map (·.2)).filter fun e => near e = n).map far
    ns.Nodup ∧ ∀ b, b ∈ ns ↔ ∃ dest, g.edge_between n b = some (edge b dest) := by
  cases hm : g.edges.lookup n with
  | none => simp [edge_between, hm]
  | some m =>
    have hkeys : ((m.entries.map (·.2)).filter fun e => near e = n).map far =
        (m.entries.filter fun s => near s.2 = n).map (·.1) := by
      simp only [filter_map, map_map]
      refine map_congr_left fun s hs => ?_
      obtain ⟨hmem, hend⟩ := mem_filter.mp hs
      have he := hedge ((edge_between_iff hm).mpr hmem) (by simpa using hend)
      exact (congrArg far he).trans (hfar _ _)
    simp only [Option.elim_some, hkeys]
    refine ⟨m.keys_nodup.sublist (filter_sublist.map _), fun b => ⟨?_, ?_⟩⟩
    · intro hb
      obtain ⟨⟨b', e⟩, hs, rfl⟩ := mem_map.mp hb
      obtain ⟨hmem, hend⟩ := mem_filter.mp hs
      have he := (edge_between_iff hm).mpr hmem
      exact ⟨e.destination, he.trans (congrArg some (hedge he (by simpa using hend)))⟩
    · intro ⟨dest, he⟩
      have hmem := (edge_between_iff hm).mp he
      exact mem_map.mpr ⟨⟨b, _⟩, mem_filter.mpr ⟨hmem, by simp [hnear]⟩, rfl⟩

theorem neighbors_from_spec (h : g.WF) (n : Nat) : (g.neighbors_from n).Nodup ∧
    ∀ b, b ∈ g.neighbors_from n ↔ ∃ dest, g.edge_between n b = some ⟨n, b, dest⟩ :=
  neighbors_spec (fun _ _ => rfl) (fun _ _ => rfl) h.eq_of_from

theorem neighbors_to_spec (h : g.WF) (n : Nat) : (g.neighbors_to n).Nodup ∧
    ∀ b, b ∈ g.neighbors_to n ↔ ∃ dest, g.edge_between n b = some ⟨b, n, dest⟩ :=
  neighbors_spec (fun _ _ => rfl) (fun _ _ => rfl) h.eq_of_to

end

end WF

theorem eq_of_degree_one {g : GraphInner} {n v b : Nat} {e e' : Edge} (hdeg : g.degree n = 1)
    (hv : g.edge_between n v = some e) (hb : g.edge_between n b = some e') : b = v := by
  unfold degree at hdeg
  unfold edge_between at hv hb
  cases hm : g.edges.lookup n with
  | none => rw [hm] at hv; cases hv
  | some m =>
    rw [hm] at hdeg hv hb
    obtain ⟨s, hs⟩ := length_eq_one_iff.mp hdeg
    have h1 := AList.mem_lookup_iff.mp hv
    have h2 := AList.mem_lookup_iff.mp hb
    rw [hs, mem_singleton] at h1 h2
    exact congrArg Sigma.fst (h2.trans h1.symm)

theorem exists_of_degree_ne_one {g : GraphInner} {n v : Nat} {e : Edge} (hdeg : g.degree n ≠ 1)
    (hv : g.edge_between n v = some e) : ∃ b e', b ≠ v ∧ g.edge_between n b = some e' := by
  unfold degree at hdeg
  unfold edge_between at hv ⊢
  cases hm : g.edges.lookup n with
  | none => rw [hm] at hv; cases hv
  | some m =>
    rw [hm] at hdeg hv
    have h1 := AList.mem_lookup_iff.mp hv
    by_contra hno
    push Not at hno
    -- all entries would have the key `v`, which keys do only once
    have hkeys : ∀ b ∈ m.keys, b = v := by
      intro b hb
      by_contra hne
      obtain ⟨s, hs, rfl⟩ := mem_map.mp hb
      exact hno s.1 s.2 hne (AList.mem_lookup_iff.mpr hs)
    have hlen : m.keys.length = 1 := by
      have hrep : m.keys = replicate m.keys.length v := eq_replicate_of_mem hkeys
      have hnodup := m.keys_nodup
      rw [hrep, nodup_replicate] at hnodup
      have hpos : 0 < m.keys.length := length_pos_of_mem (mem_map_of_mem h1)
      omega
    rw [AList.keys, keys, length_map] at hlen
    exact hdeg hlen

end GraphInner

end NodeGraph
