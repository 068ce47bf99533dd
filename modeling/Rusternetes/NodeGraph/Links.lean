import Rusternetes.NodeGraph.Index

/-! # The Node Authorizer's Graph: Relationships Between Objects

    Above the ids: which objects are related, and to which node a relationship is
    known to lead. A graph mirrors a set of relationships when its edges are these,
    its indices are exact and no vertex is left without an edge. Each function of
    the graph is described by what it does to the relationships.
-/

namespace NodeGraph

open GraphInner

/-- A set of relationships: from an object, to an object, the node it leads to. -/
abbrev Relationships := Key → Key → Option String → Prop

def Relationships.add (L : Relationships) (k k' : Key) (d : Option String) : Relationships :=
  fun x y d' => L x y d' ∨ (x = k ∧ y = k' ∧ d' = d)

def Relationships.without (L : Relationships) (k : Key) : Relationships :=
  fun x y d => L x y d ∧ x ≠ k ∧ y ≠ k

/-- What the graph relies on. -/
structure Regular (L : Relationships) : Prop where
  /-- A relationship leads to its node in at most one more step. -/
  anchored : ∀ k k' n, L k k' (some n) → k' = node_key n ∨ L k' (node_key n) (some n)
  /-- Only objects that are searched have relationships without a node. -/
  searched : ∀ k k', L k k' none → k.vertex_type.has_authoritative_index = false
  /-- And these go to other objects than nodes. -/
  inner : ∀ k k', L k k' none → k'.vertex_type ≠ .Node

namespace GraphInner

/-- The destination of an edge is the vertex of a node. -/
def leads (g : GraphInner) : Option Nat → Option String → Prop
  | none, none => True
  | some i, some n => g.vertices.lookup (node_key n) = some i
  | _, _ => False

def link (g : GraphInner) : Relationships := fun k k' d =>
  ∃ a b dest, g.vertices.lookup k = some a ∧ g.vertices.lookup k' = some b ∧
    g.edge_between a b = some ⟨a, b, dest⟩ ∧ g.leads dest d

/-- The graph is the one of the relationships `L`; of the vertices only those in
    `spare` may have no edge. -/
structure Mirrors (g : GraphInner) (L : Relationships) (spare : Set Key) : Prop where
  wf : g.WF
  labelled : ∀ a b dest, g.edge_between a b = some ⟨a, b, dest⟩ → ∃ d, g.leads dest d
  link_iff : ∀ k k' d, g.link k k' d ↔ L k k' d
  counted : g.Exact
  tidy : ∀ k a, g.vertices.lookup k = some a → k ∈ spare ∨ ∃ b e, g.edge_between a b = some e

section Leads

variable {g g' : GraphInner} {dest : Option Nat}

variable {d : Option String}

theorem leads_mono (hv : ∀ k a, g.vertices.lookup k = some a → g'.vertices.lookup k = some a)
    (hl : g.leads dest d) : g'.leads dest d := by
  cases dest <;> cases d <;> simp only [leads] at hl ⊢
  exact hv _ _ hl

theorem WF.leads_left_unique (h : g.WF) {d' : Option String} (hl : g.leads dest d)
    (hl' : g.leads dest d') : d = d' := by
  cases dest <;> cases d <;> cases d' <;> simp only [leads] at hl hl' ⊢
  exact congrArg some (Key.mk.inj (h.injective hl hl')).2.2

theorem leads_none_iff (hl : g.leads dest d) : dest = none ↔ d = none := by
  cases dest <;> cases d <;> simp_all [leads]

theorem leads_some {n : String} (hl : g.leads dest (some n)) :
    ∃ i, dest = some i ∧ g.vertices.lookup (node_key n) = some i := by
  cases dest with
  | none => exact hl.elim
  | some i => exact ⟨i, rfl, hl⟩

end Leads

namespace Mirrors

variable {g : GraphInner} {L : Relationships} {spare : Set Key} (h : Mirrors g L spare)
include h

variable {a b : Nat} {k : Key}

theorem edge_link {k' : Key} {dest : Option Nat}
    (hk : g.vertices.lookup k = some a) (hk' : g.vertices.lookup k' = some b)
    (he : g.edge_between a b = some ⟨a, b, dest⟩) : ∃ d, g.leads dest d ∧ L k k' d := by
  obtain ⟨d, hd⟩ := h.labelled a b dest he
  exact ⟨d, hd, (h.link_iff k k' d).mp ⟨a, b, dest, hk, hk', he, hd⟩⟩

theorem exists_keys {e : Edge} (he : g.edge_between a b = some e) :
    ∃ k k', g.vertices.lookup k = some a ∧ g.vertices.lookup k' = some b := by
  obtain ⟨k, hk⟩ := h.wf.exists_key (h.wf.present a b e he)
  obtain ⟨k', hk'⟩ := h.wf.exists_key (h.wf.present b a e (h.wf.sym a b e he))
  exact ⟨k, k', hk, hk'⟩

/-! ### Finding and creating vertices -/

theorem create_vertex (hk : g.vertices.lookup k = none) :
    ∃ g' a, g.create_vertex k = some (g', a) ∧ Mirrors g' L (insert k spare) ∧
      g'.vertices.lookup k = some a ∧
      ∀ k' b, g.vertices.lookup k' = some b → g'.vertices.lookup k' = some b := by
  obtain ⟨g', a, hcreate, hc⟩ := create_vertex_created h.wf hk
  have hmono : ∀ k' b, g.vertices.lookup k' = some b → g'.vertices.lookup k' = some b := by
    intro k' b hb
    have hne : k' ≠ k := by
      rintro rfl
      rw [hk] at hb
      cases hb
    rw [hc.vertices, if_neg hne, hb]
  -- a vertex with an edge is an old one
  have hold : ∀ k' b c e, g'.vertices.lookup k' = some b → g.edge_between b c = some e →
      g.vertices.lookup k' = some b := by
    intro k' b c e hb he
    rw [hc.vertices] at hb
    split_ifs at hb with heq
    · cases hb
      exact absurd (h.wf.present a c e he) (by simp [hc.fresh])
    · exact hb
  refine ⟨g', a, hcreate, ⟨hc.wf, ?_, ?_, ?_, ?_⟩, by rw [hc.vertices, if_pos rfl], hmono⟩
  · intro x y dest he
    rw [hc.edge] at he
    obtain ⟨d, hd⟩ := h.labelled x y dest he
    exact ⟨d, leads_mono hmono hd⟩
  · intro x y d
    rw [← h.link_iff]
    constructor
    · rintro ⟨b, c, dest, hb, hc', he, hd⟩
      rw [hc.edge] at he
      have hb' := hold x b c _ hb he
      have hc'' := hold y c b _ hc' (h.wf.sym b c _ he)
      obtain ⟨d', hd', hL⟩ := h.edge_link hb' hc'' he
      rw [hc.wf.leads_left_unique hd (leads_mono hmono hd')]
      exact (h.link_iff x y d').mpr hL
    · rintro ⟨b, c, dest, hb, hc', he, hd⟩
      exact ⟨b, c, dest, hmono _ _ hb, hmono _ _ hc', by rw [hc.edge, he], leads_mono hmono hd⟩
  · intro i s hs d
    rw [hc.index] at hs
    have hheads : g'.heads i d = g.heads i d := by
      ext b
      simp [heads, hc.edge]
    rw [hheads]
    exact h.counted i s hs d
  · intro k' b hb
    rw [hc.vertices] at hb
    simp only [hc.edge]
    split_ifs at hb with heq
    · exact .inl (.inl heq)
    · rcases h.tidy k' b hb with hspare | hedge
      · exact .inl (.inr hspare)
      · exact .inr hedge

theorem get_or_create_vertex (k : Key) :
    ∃ g' a, g.get_or_create_vertex k = some (g', a) ∧ Mirrors g' L (insert k spare) ∧
      g'.vertices.lookup k = some a ∧
      ∀ k' b, g.vertices.lookup k' = some b → g'.vertices.lookup k' = some b := by
  unfold GraphInner.get_or_create_vertex
  rw [h.wf.get_vertex_id_eq]
  cases hk : g.vertices.lookup k with
  | none => exact h.create_vertex hk
  | some a =>
    refine ⟨g, a, rfl, { h with tidy := ?_ }, hk, fun _ _ hb => hb⟩
    exact fun k' b hb => (h.tidy k' b hb).imp_left (.inr ·)

/-! ### Adding edges -/

theorem add_edge {k' : Key} {dest : Option Nat} {d : Option String}
    (hk : g.vertices.lookup k = some a) (hk' : g.vertices.lookup k' = some b)
    (hlead : g.leads dest d) (hne : k ≠ k') (hback : ∀ d', ¬ L k' k d')
    (hsame : ∀ d', L k k' d' → d = none ∧ d' = none)
    (hsearched : d = none → k.vertex_type.has_authoritative_index = false) :
    ∃ g', g.add_edge a b dest = some g' ∧ Mirrors g' (L.add k k' d) (spare \ {k, k'}) ∧
      g'.vertices = g.vertices := by
  have hab : a ≠ b := by
    rintro rfl
    exact hne (h.wf.injective hk hk')
  have hnode : ∀ {x i}, g.vertices.lookup x = some i → g.nodes.lookup i = some ⟨x, i⟩ :=
    fun {x i} hx => (h.wf.named x i).mp hx
  -- an edge between the two is the one to be added
  have hforward : ∀ dest', g.edge_between a b = some ⟨a, b, dest'⟩ → dest = none ∧ dest' = none := by
    intro dest' he
    obtain ⟨d', hd', hL⟩ := h.edge_link hk hk' he
    obtain ⟨hd, hd''⟩ := hsame d' hL
    exact ⟨(leads_none_iff hlead).mpr hd, (leads_none_iff hd').mpr hd''⟩
  have hbackward : ∀ dest', g.edge_between b a ≠ some ⟨b, a, dest'⟩ := by
    intro dest' he
    obtain ⟨d', _, hL⟩ := h.edge_link hk' hk he
    exact hback d' hL
  have haddable : Addable g ⟨a, b, dest⟩ := by
    refine ⟨hab, by simp [hnode hk], by simp [hnode hk'], ?_, ?_⟩
    · rintro ⟨f, t, dest'⟩ he
      rcases h.wf.ends b a _ he with ⟨rfl, rfl⟩ | ⟨rfl, rfl⟩
      · exact absurd he (hbackward dest')
      · obtain ⟨hdest, hdest'⟩ := hforward dest' (h.wf.sym _ _ _ he)
        rw [hdest, hdest']
    · intro hdest v hv
      rw [hnode hk] at hv
      cases hv
      exact hsearched ((leads_none_iff hlead).mp hdest)
  obtain ⟨g', hadd, hwf, hl, hexact⟩ := add_edge_spec h.wf haddable
  have hleads : ∀ dest' d', g'.leads dest' d' ↔ g.leads dest' d' := by
    intro dest' d'
    cases dest' <;> cases d' <;> simp [leads, hl.vertices]
  -- the edges of the new graph, in their direction
  have hedge : ∀ x y dest', g'.edge_between x y = some ⟨x, y, dest'⟩ ↔
      (x = a ∧ y = b ∧ dest' = dest) ∨ g.edge_between x y = some ⟨x, y, dest'⟩ := by
    intro x y dest'
    rw [hl.edge]
    by_cases hfwd : x = a ∧ y = b
    · obtain ⟨rfl, rfl⟩ := hfwd
      rw [if_pos (.inl ⟨rfl, rfl⟩)]
      simp only [Option.some.injEq, Edge.mk.injEq, true_and]
      refine ⟨fun heq => .inl heq.symm, ?_⟩
      rintro (heq | he)
      · exact heq.symm
      · obtain ⟨hd, hd'⟩ := hforward dest' he
        rw [hd, hd']
    · by_cases hbwd : x = b ∧ y = a
      · obtain ⟨rfl, rfl⟩ := hbwd
        simp [hab, Ne.symm hab, hbackward dest']
      · have hno : ¬ (x = a ∧ y = b ∧ dest' = dest) := fun hx => hfwd ⟨hx.1, hx.2.1⟩
        rw [if_neg (by tauto)]
        simp [hno]
  refine ⟨g', hadd, ⟨hwf, ?_, ?_, ?_, ?_⟩, hl.vertices⟩
  · intro x y dest' he
    rcases (hedge x y dest').mp he with ⟨rfl, rfl, rfl⟩ | he
    · exact ⟨d, (hleads _ _).mpr hlead⟩
    · obtain ⟨d', hd'⟩ := h.labelled x y dest' he
      exact ⟨d', (hleads _ _).mpr hd'⟩
  · intro x y d'
    unfold Relationships.add
    rw [← h.link_iff]
    unfold link
    simp only [hl.vertices, hleads, hedge]
    constructor
    · rintro ⟨p, q, dest', hp, hq, hpq, hd'⟩
      rcases hpq with ⟨rfl, rfl, rfl⟩ | he
      · exact .inr ⟨h.wf.injective hp hk, h.wf.injective hq hk', h.wf.leads_left_unique hd' hlead⟩
      · exact .inl ⟨p, q, dest', hp, hq, he, hd'⟩
    · rintro (⟨p, q, dest', hp, hq, he, hd'⟩ | ⟨rfl, rfl, rfl⟩)
      · exact ⟨p, q, dest', hp, hq, .inr he, hd'⟩
      · exact ⟨a, b, dest, hk, hk', .inl ⟨rfl, rfl, rfl⟩, hlead⟩
  · refine hexact h.counted fun hdest => ?_
    cases he : g.edge_between a b with
    | none => rfl
    | some e =>
      obtain ⟨f, t, dest'⟩ := e
      rcases h.wf.ends a b _ he with ⟨rfl, rfl⟩ | ⟨rfl, rfl⟩
      · exact absurd (hforward dest' he).1 hdest
      · exact absurd (h.wf.sym _ _ _ he) (hbackward dest')
  · intro x i hx
    rw [hl.vertices] at hx
    have hnew : ∀ p q, g.edge_between p q = none ∨ ∃ e, g'.edge_between p q = some e := by
      intro p q
      rw [hl.edge]
      split_ifs
      · exact .inr ⟨_, rfl⟩
      · cases g.edge_between p q with
        | none => exact .inl rfl
        | some e => exact .inr ⟨e, rfl⟩
    by_cases hxk : x = k
    · subst hxk
      rw [hk] at hx
      cases hx
      exact .inr ⟨b, _, (hedge a b dest).mpr (.inl ⟨rfl, rfl, rfl⟩)⟩
    by_cases hxk' : x = k'
    · subst hxk'
      rw [hk'] at hx
      cases hx
      exact .inr ⟨a, _, hwf.sym _ _ _ ((hedge a b dest).mpr (.inl ⟨rfl, rfl, rfl⟩))⟩
    rcases h.tidy x i hx with hspare | ⟨q, e, he⟩
    · exact .inl ⟨hspare, by simp [hxk, hxk']⟩
    · rcases hnew i q with hno | ⟨e', he'⟩
      · exact absurd he (by rw [hno]; simp)
      · exact .inr ⟨q, e', he'⟩

/-! ### Deleting a vertex -/

omit h in
theorem delete_vertex (h : Mirrors g L ∅) (hL : Regular L) (hk : k.vertex_type ≠ .Node) :
    Mirrors (g.delete_vertex k) (L.without k) ∅ := by
  cases hv : g.vertices.lookup k with
  | none =>
    have hsame : g.delete_vertex k = g := by
      unfold GraphInner.delete_vertex
      rw [h.wf.get_vertex_id_eq, hv]
    rw [hsame]
    refine { h with link_iff := fun x y d => ?_ }
    rw [h.link_iff]
    refine ⟨fun hxy => ⟨hxy, ?_, ?_⟩, fun hxy => hxy.1⟩
    · rintro rfl
      obtain ⟨a, _, _, ha, _⟩ := (h.link_iff x y d).mpr hxy
      rw [hv] at ha
      cases ha
    · rintro rfl
      obtain ⟨_, b, _, _, hb, _⟩ := (h.link_iff x y d).mpr hxy
      rw [hv] at hb
      cases hb
  | some v =>
    have hd := delete_vertex_deleted h.wf hv
    generalize g.delete_vertex k = g' at hd
    have hback : ∀ x a, g'.vertices.lookup x = some a → g.vertices.lookup x = some a :=
      fun x a hx => ((hd.vertices x a).mp hx).1
    have hedge : ∀ {a b e}, g'.edge_between a b = some e →
        a ≠ v ∧ b ≠ v ∧ g.edge_between a b = some e := by
      intro a b e he
      rw [hd.edge] at he
      split_ifs at he with hab
      push Not at hab
      exact ⟨hab.1, hab.2, he⟩
    -- a vertex with an edge to another vertex than `v` stays
    have hstay : ∀ {x a b e}, g.vertices.lookup x = some a → a ≠ v → b ≠ v →
        g.edge_between a b = some e → g'.vertices.lookup x = some a := by
      intro x a b e hx ha hb he
      exact (hd.vertices x a).mpr ⟨hx, ha, fun horphan => hb (h.wf.orphan_edge horphan he)⟩
    -- and so does the node that the edge leads to
    have hlead : ∀ {x y a b dest d}, g.vertices.lookup x = some a → g.vertices.lookup y = some b →
        a ≠ v → b ≠ v → g.edge_between a b = some ⟨a, b, dest⟩ → g.leads dest d →
        g'.leads dest d := by
      intro x y a b dest d hx hy ha hb he hd'
      cases d with
      | none =>
        rw [(leads_none_iff hd').mpr rfl]
        trivial
      | some n =>
        obtain ⟨i, rfl, hi⟩ := leads_some hd'
        have hxy := (h.link_iff x y (some n)).mp ⟨a, b, some i, hx, hy, he, hd'⟩
        show g'.vertices.lookup (node_key n) = some i
        rcases hL.anchored x y n hxy with rfl | hyn
        · rw [hi] at hy
          cases hy
          exact hstay hi hb ha (h.wf.sym _ _ _ he)
        · obtain ⟨b', i', dest', hb', hi', he', _⟩ := (h.link_iff _ _ _).mpr hyn
          rw [hy] at hb'
          rw [hi] at hi'
          cases hb'
          cases hi'
          have hne : i ≠ v := by
            rintro rfl
            rw [← h.wf.injective hi hv] at hk
            exact hk rfl
          exact hstay hi hne hb (h.wf.sym _ _ _ he')
    refine ⟨hd.wf, ?_, ?_, hd.exact_of h.counted, ?_⟩
    · intro a b dest he
      obtain ⟨ha, hb, he⟩ := hedge he
      obtain ⟨x, y, hx, hy⟩ := h.exists_keys he
      obtain ⟨d, hd'⟩ := h.labelled a b dest he
      exact ⟨d, hlead hx hy ha hb he hd'⟩
    · intro x y d
      unfold Relationships.without
      rw [← h.link_iff]
      constructor
      · rintro ⟨a, b, dest, hx, hy, he, hd'⟩
        obtain ⟨ha, hb, he⟩ := hedge he
        have hx := hback x a hx
        have hy := hback y b hy
        refine ⟨⟨a, b, dest, hx, hy, he, leads_mono hback hd'⟩, ?_, ?_⟩
        · rintro rfl
          rw [hv] at hx
          exact ha (Option.some.inj hx).symm
        · rintro rfl
          rw [hv] at hy
          exact hb (Option.some.inj hy).symm
      · rintro ⟨⟨a, b, dest, hx, hy, he, hd'⟩, hxk, hyk⟩
        have ha : a ≠ v := by
          rintro rfl
          exact hxk (h.wf.injective hx hv)
        have hb : b ≠ v := by
          rintro rfl
          exact hyk (h.wf.injective hy hv)
        refine ⟨a, b, dest, hstay hx ha hb he, hstay hy hb ha (h.wf.sym _ _ _ he), ?_,
          hlead hx hy ha hb he hd'⟩
        rw [hd.edge, if_neg (by simp [ha, hb]), he]
    · intro x a hx
      obtain ⟨hx, ha, horphan⟩ := (hd.vertices x a).mp hx
      refine .inr ?_
      obtain ⟨b, e, he⟩ := (h.tidy x a hx).resolve_left (by simp)
      have hother : ∃ c e', c ≠ v ∧ g.edge_between a c = some e' := by
        by_cases hb : b = v
        · subst hb
          refine exists_of_degree_ne_one (fun hdeg => horphan ?_) he
          exact h.wf.mem_orphans.mpr ⟨hdeg, by rw [h.wf.sym _ _ _ he]; rfl⟩
        · exact ⟨b, e, hb, he⟩
      obtain ⟨c, e', hc, he'⟩ := hother
      exact ⟨c, e', by rw [hd.edge, if_neg (by simp [ha, hc]), he']⟩

end Mirrors

end GraphInner

end NodeGraph
