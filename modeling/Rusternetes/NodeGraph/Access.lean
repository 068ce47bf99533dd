import Rusternetes.Framework.LTS
import Rusternetes.NodeGraph.Calls

/-! # The Node Authorizer's Graph: Access of Nodes

    What a node may reach, said of the objects alone, and the graph under any
    sequence of calls. As long as no added pod names an object twice, the graph
    answers as the objects say. A pod that names an object twice is counted twice
    and uncounted once, and leaves its node an access that nothing justifies.
-/

open LTS

namespace NodeGraph

open GraphInner

/-! ### What the objects say -/

def Referenced (os : Objects) (node : String) (k : Key) : Prop :=
  ∃ j p, os.get j = some (.pod p) ∧ p.node_name = node ∧ k ∈ p.references

/-- The objects that a node may reach. -/
inductive Access (os : Objects) (node : String) : Key → Prop where
  /-- A pod bound to the node; an attachment, a slice or a certificate request that
      names it. -/
  | named {k : Key} {o : Object} :
      os.get k = some o → o.node_name = some node → Access os node k
  /-- What a pod bound to the node refers to. -/
  | referenced {k : Key} : Referenced os node k → Access os node k
  /-- The volume of a claim that such a pod refers to. -/
  | volume {k claim : Key} {v : PersistentVolume} :
      os.get k = some (.pv v) → v.claim = some claim → Referenced os node claim → Access os node k
  /-- The secrets of such a volume that kubelets see. -/
  | volume_secret {k j claim : Key} {v : PersistentVolume} :
      os.get j = some (.pv v) → v.claim = some claim → Referenced os node claim →
      k ∈ v.visible_secrets → Access os node k
  /-- The node itself, when an object names it. -/
  | node {k : Key} {o : Object} :
      os.get k = some o → o.node_name = some node → Access os node (node_key node)

namespace Objects

variable {os : Objects} {k : Key} {n : String}

theorem links_some_iff {u : Key} : os.links k u (some n) ↔
    (∃ o, os.get k = some o ∧ o.node_name = some n ∧ u = node_key n) ∨
      ∃ p, os.get u = some (.pod p) ∧ p.node_name = n ∧ k ∈ p.references := by
  constructor
  · rintro ⟨owner, o, ho, ⟨rfl, ht⟩ | ⟨rfl, hk, t, ht⟩⟩
    · exact .inl ⟨o, ho, Object.target_some_iff.mp ht⟩
    · obtain ⟨hnode, -⟩ := Object.target_some_iff.mp ht
      -- of the objects with a node only pods have references
      cases o with
      | pod p => exact .inr ⟨p, ho, Option.some.inj hnode, hk⟩
      | pv v => cases hnode
      | attachment m | slice m | pcr m => cases hk
  · rintro (⟨o, ho, hn, rfl⟩ | ⟨p, hp, rfl, hk⟩)
    · exact ⟨k, o, ho, .inl ⟨rfl, Object.target_some_iff.mpr ⟨hn, rfl⟩⟩⟩
    · exact ⟨u, .pod p, hp, .inr ⟨rfl, hk, _, Object.target_some_iff.mpr ⟨rfl, rfl⟩⟩⟩

theorem links_none_iff {u : Key} : os.links k u none ↔
    (∃ v, os.get k = some (.pv v) ∧ v.claim = some u) ∨
      ∃ v claim, os.get u = some (.pv v) ∧ v.claim = some claim ∧ k ∈ v.visible_secrets := by
  constructor
  · rintro ⟨owner, o, ho, ⟨rfl, ht⟩ | ⟨rfl, hk, t, ht⟩⟩
    · obtain ⟨v, rfl, hclaim⟩ := Object.target_none_iff.mp ht
      exact .inl ⟨v, ho, hclaim⟩
    · obtain ⟨v, rfl, hclaim⟩ := Object.target_none_iff.mp ht
      exact .inr ⟨v, t, ho, hclaim, hk⟩
  · rintro (⟨v, hv, hclaim⟩ | ⟨v, claim, hv, hclaim, hk⟩)
    · exact ⟨k, .pv v, hv, .inl ⟨rfl, Object.target_none_iff.mpr ⟨v, rfl, hclaim⟩⟩⟩
    · exact ⟨u, .pv v, hv, .inr ⟨rfl, hk, claim, Object.target_none_iff.mpr ⟨v, rfl, hclaim⟩⟩⟩

theorem reaches_claim (hk : k.vertex_type = .Pvc) : os.links.Reaches k n ↔ Referenced os n k := by
  have hstored : ∀ o, os.get k ≠ some o := by
    intro o ho
    have hadded := added_of_get ho
    rw [hk] at hadded
    nomatch hadded
  constructor
  · rintro ⟨t, hpath, u, hu⟩
    rcases hpath.cases_head with rfl | ⟨y, hy, _⟩
    · rcases links_some_iff.mp hu with ⟨o, ho, _⟩ | ⟨p, hp, hn, href⟩
      · exact absurd ho (hstored o)
      · exact ⟨u, p, hp, hn, href⟩
    · rcases links_none_iff.mp hy with ⟨v, hv, _⟩ | ⟨v, _, _, _, hsecret⟩
      · exact absurd hv (hstored _)
      · have htype := Object.mem_visible_secrets_type hsecret
        rw [hk] at htype
        cases htype
  · rintro ⟨j, p, hp, hn, href⟩
    exact ⟨k, .refl, j, links_some_iff.mpr (.inr ⟨p, hp, hn, href⟩)⟩

theorem reaches_volume {v : PersistentVolume} (hv : os.get k = some (.pv v)) :
    os.links.Reaches k n ↔ ∃ claim, v.claim = some claim ∧ Referenced os n claim := by
  have htype : k.vertex_type = .Pv := (os.typed k _ hv).symm
  constructor
  · rintro ⟨t, hpath, u, hu⟩
    rcases hpath.cases_head with rfl | ⟨y, hy, hrest⟩
    · rcases links_some_iff.mp hu with ⟨o, ho, hn, _⟩ | ⟨p, _, _, href⟩
      · rw [hv] at ho
        cases ho
        cases hn
      · have hadded := (Object.mem_references_type href).2.1
        rw [htype] at hadded
        nomatch hadded
    · rcases links_none_iff.mp hy with ⟨w, hw, hclaim⟩ | ⟨_, _, _, _, hsecret⟩
      · rw [hv] at hw
        cases hw
        exact ⟨y, hclaim, (reaches_claim (Object.claim_type hclaim)).mp ⟨t, hrest, u, hu⟩⟩
      · have hsec := Object.mem_visible_secrets_type hsecret
        rw [htype] at hsec
        cases hsec
  · rintro ⟨claim, hclaim, href⟩
    obtain ⟨t, hpath, hu⟩ := (reaches_claim (Object.claim_type hclaim)).mpr href
    exact ⟨t, hpath.head (links_none_iff.mpr (.inl ⟨v, hv, hclaim⟩)), hu⟩

theorem reaches_iff : os.links.Reaches k n ↔
    (∃ o, os.get k = some o ∧ o.node_name = some n) ∨ Referenced os n k ∨
      (∃ v claim, os.get k = some (.pv v) ∧ v.claim = some claim ∧ Referenced os n claim) ∨
      ∃ j v claim, os.get j = some (.pv v) ∧ v.claim = some claim ∧ Referenced os n claim ∧
        k ∈ v.visible_secrets := by
  constructor
  · intro hr
    obtain ⟨t, hpath, u, hu⟩ := hr
    rcases hpath.cases_head with rfl | ⟨y, hy, hrest⟩
    · rcases links_some_iff.mp hu with ⟨o, ho, hn, _⟩ | ⟨p, hp, hn, href⟩
      · exact .inl ⟨o, ho, hn⟩
      · exact .inr (.inl ⟨u, p, hp, hn, href⟩)
    · rcases links_none_iff.mp hy with ⟨v, hv, _⟩ | ⟨v, _, hv, _, hsecret⟩
      · obtain ⟨claim, hclaim, href⟩ := (reaches_volume hv).mp ⟨t, hpath, u, hu⟩
        exact .inr (.inr (.inl ⟨v, claim, hv, hclaim, href⟩))
      · obtain ⟨claim, hclaim, href⟩ := (reaches_volume hv).mp ⟨t, hrest, u, hu⟩
        exact .inr (.inr (.inr ⟨y, v, claim, hv, hclaim, href, hsecret⟩))
  · rintro (⟨o, ho, hn⟩ | ⟨j, p, hp, hn, href⟩ | ⟨v, claim, hv, hclaim, href⟩ |
      ⟨j, v, claim, hv, hclaim, href, hsecret⟩)
    · exact ⟨k, .refl, node_key n, links_some_iff.mpr (.inl ⟨o, ho, hn, rfl⟩)⟩
    · exact ⟨k, .refl, j, links_some_iff.mpr (.inr ⟨p, hp, hn, href⟩)⟩
    · exact (reaches_volume hv).mpr ⟨claim, hclaim, href⟩
    · obtain ⟨t, hpath, hu⟩ := (reaches_volume hv).mpr ⟨claim, hclaim, href⟩
      exact ⟨t, hpath.head (links_none_iff.mpr (.inr ⟨v, claim, hv, hclaim, hsecret⟩)), hu⟩

theorem named_of_links {x y : Key} {d : Option String} (h : os.links x y d)
    (hn : x = node_key n ∨ y = node_key n) : ∃ k o, os.get k = some o ∧ o.node_name = some n := by
  cases d with
  | none =>
    have hsearched := os.links_regular.inner x y h
    rcases links_none_iff.mp h with ⟨v, hv, _⟩ | ⟨v, _, _, _, hsecret⟩
    · rcases hn with rfl | rfl
      · nomatch added_of_get hv
      · exact absurd rfl hsearched
    · rcases hn with rfl | rfl
      · exact absurd (Object.mem_visible_secrets_type hsecret) (by simp [node_key])
      · exact absurd rfl hsearched
  | some m =>
    rcases links_some_iff.mp h with ⟨o, ho, hm, rfl⟩ | ⟨p, hp, _, href⟩
    · rcases hn with rfl | heq
      · nomatch added_of_get ho
      · obtain rfl : m = n := (Key.mk.inj heq).2.2
        exact ⟨x, o, ho, hm⟩
    · rcases hn with rfl | rfl
      · exact absurd rfl (Object.mem_references_type href).2.2
      · nomatch added_of_get hp

end Objects

variable {g : GraphInner}

theorem GraphInner.Mirrors.has_path_from_iff_access {os : Objects} (h : Mirrors g os.links ∅)
    (node : String) (k : Key) : g.has_path_from node k = .ok true ↔ Access os node k := by
  rw [h.has_path_from_iff os.links_regular, Objects.reaches_iff]
  constructor
  · rintro (⟨hsome, rfl⟩ | ⟨o, ho, hn⟩ | href | ⟨v, claim, hv, hclaim, href⟩ |
      ⟨j, v, claim, hv, hclaim, href, hsecret⟩)
    · -- the vertex of the node has an edge, so an object names the node
      obtain ⟨i, hi⟩ := Option.isSome_iff_exists.mp hsome
      obtain ⟨b, e, he⟩ := (h.tidy _ i hi).resolve_left (by simp)
      obtain ⟨_, x, _, hx⟩ := h.exists_keys he
      obtain ⟨f, t, dest⟩ := e
      rcases h.wf.ends i b _ he with ⟨rfl, rfl⟩ | ⟨rfl, rfl⟩
      · obtain ⟨d, _, hL⟩ := h.edge_link hi hx he
        obtain ⟨j, o, ho, hn⟩ := Objects.named_of_links hL (.inl rfl)
        exact .node ho hn
      · obtain ⟨d, _, hL⟩ := h.edge_link hx hi (h.wf.sym _ _ _ he)
        obtain ⟨j, o, ho, hn⟩ := Objects.named_of_links hL (.inr rfl)
        exact .node ho hn
    · exact .named ho hn
    · exact .referenced href
    · exact .volume hv hclaim href
    · exact .volume_secret hv hclaim href hsecret
  · intro haccess
    cases haccess with
    | named ho hn => exact .inr (.inl ⟨_, ho, hn⟩)
    | referenced href => exact .inr (.inr (.inl href))
    | volume hv hclaim href => exact .inr (.inr (.inr (.inl ⟨_, _, hv, hclaim, href⟩)))
    | volume_secret hv hclaim href hsecret =>
      exact .inr (.inr (.inr (.inr ⟨_, _, _, hv, hclaim, href, hsecret⟩)))
    | node ho hn =>
      obtain ⟨_, i, _, _, hi, _⟩ := (h.link_iff _ _ _).mpr
        (Objects.links_some_iff.mpr (.inl ⟨_, ho, hn, rfl⟩))
      exact .inl ⟨by rw [hi]; rfl, rfl⟩

/-! ### The graph under calls -/

/-- The same graph, its maps listed in any order. -/
structure Relisted (g g' : GraphInner) : Prop where
  nodes : ∀ x, g'.nodes.lookup x = g.nodes.lookup x
  vertices : ∀ k, g'.vertices.lookup k = g.vertices.lookup k
  edge : ∀ a b, g'.edge_between a b = g.edge_between a b
  index : ∀ i, (g'.destination_edge_index.lookup i).map IntSet.count =
    (g.destination_edge_index.lookup i).map IntSet.count
  free : g'.free_ids = g.free_ids
  used : g'.used_ids = g.used_ids
  threshold : g'.destination_edge_threshold = g.destination_edge_threshold

theorem Relisted.refl (g : GraphInner) : Relisted g g :=
  ⟨fun _ => rfl, fun _ => rfl, fun _ _ => rfl, fun _ => rfl, rfl, rfl, rfl⟩

theorem Relisted.index_some {g' : GraphInner} (hr : Relisted g g') {i : Nat} {s' : IntSet}
    (hs' : g'.destination_edge_index.lookup i = some s') :
    ∃ s, g.destination_edge_index.lookup i = some s ∧ s.count = s'.count := by
  have hi := hr.index i
  rw [hs', Option.map_some] at hi
  exact Option.map_eq_some_iff.mp hi.symm

theorem Relisted.mirrors {g' : GraphInner} (hr : Relisted g g') {L : Relationships}
    (h : Mirrors g L ∅) : Mirrors g' L ∅ := by
  have hleads : ∀ dest d, g'.leads dest d ↔ g.leads dest d := by
    intro dest d
    refine ⟨leads_mono ?_, leads_mono ?_⟩
    · exact fun k a hk => (hr.vertices k).symm.trans hk
    · exact fun k a hk => (hr.vertices k).trans hk
  refine ⟨⟨?_, ?_, ?_, ?_, ?_, ?_, ?_, ?_, ?_⟩, ?_, ?_, ?_, ?_⟩
  · intro k a
    rw [hr.vertices, hr.nodes]
    exact h.wf.named k a
  · intro a v
    rw [hr.nodes]
    exact h.wf.node_id a v
  · intro a b e
    rw [hr.edge, hr.edge]
    exact h.wf.sym a b e
  · intro a b e
    rw [hr.edge]
    exact h.wf.ends a b e
  · intro a
    rw [hr.edge]
    exact h.wf.loopless a
  · intro a b e
    rw [hr.edge, hr.nodes]
    exact h.wf.present a b e
  · intro a
    rw [hr.used, hr.nodes]
    exact h.wf.used a
  · intro a
    rw [hr.free, hr.nodes]
    exact h.wf.free a
  · intro i s' hs'
    obtain ⟨s, hs, _⟩ := hr.index_some hs'
    rw [hr.nodes]
    exact h.wf.indexed i s hs
  · intro a b dest
    rw [hr.edge]
    simp only [hleads]
    exact h.labelled a b dest
  · intro k k' d
    rw [← h.link_iff]
    simp [link, hr.vertices, hr.edge, hleads]
  · intro i s' hs' d
    obtain ⟨s, hs, hcount⟩ := hr.index_some hs'
    have hheads : g'.heads i d = g.heads i d := by
      ext b
      simp [heads, hr.edge]
    rw [← hcount, hheads]
    exact h.counted i s hs d
  · intro k a
    simp only [hr.vertices, hr.edge]
    exact h.tidy k a

structure State where
  graph : GraphInner
  objects : Objects

/-- The graph under calls. Between calls the maps may be listed in another order. -/
def node_graph (threshold : Nat) : System State Call where
  init := fun s => s = ⟨GraphInner.new threshold, .none_yet⟩
  step := fun s c s' =>
    ∃ g, c.apply s.graph = some g ∧ Relisted g s'.graph ∧ s'.objects = s.objects.after c

theorem new_mirrors (threshold : Nat) : Mirrors (GraphInner.new threshold) Objects.none_yet.links ∅ := by
  have hempty : ∀ k, (GraphInner.new threshold).vertices.lookup k = none := by
    intro k
    simp [GraphInner.new]
  refine ⟨new_wf threshold, ?_, ?_, new_exact threshold, ?_⟩
  · intro a b dest he
    simp [GraphInner.new, edge_between] at he
  · intro k k' d
    constructor
    · rintro ⟨a, _, _, ha, _⟩
      exact absurd ha (by rw [hempty]; simp)
    · rintro ⟨owner, o, ho, _⟩
      cases ho
  · intro k a hk
    exact absurd hk (by rw [hempty]; simp)

variable {threshold : Nat}

/-- **Step lemma.** -/
theorem node_graph_step {s s' : State} {c : Call} (h : Mirrors s.graph s.objects.links ∅)
    (hc : c.Distinct) (hstep : (node_graph threshold).step s c s') :
    Mirrors s'.graph s'.objects.links ∅ := by
  obtain ⟨g, happly, hr, hos⟩ := hstep
  obtain ⟨g', happly', h'⟩ := Call.apply_mirrors hc h
  rw [happly] at happly'
  cases happly'
  rw [hos]
  exact hr.mirrors h'

/-- **Run lemma.** -/
theorem node_graph_mirrors {tr : List Call} {s : State}
    (h : ExecWhen (node_graph threshold) (fun _ _ c => c.Distinct) tr s) :
    Mirrors s.graph s.objects.links ∅ := by
  induction h with
  | init h0 =>
    rw [h0]
    exact new_mirrors threshold
  | step _ hc hstep ih => exact node_graph_step ih hc hstep

/-- In every run in which each added pod names every object at most once, no call
    fails, and a node has a path from exactly the objects it may reach. -/
theorem has_path_from_exact {threshold : Nat} {tr : List Call} {s : State}
    (h : ExecWhen (node_graph threshold) (fun _ _ c => c.Distinct) tr s) :
    (∀ node k, s.graph.has_path_from node k = .ok true ↔ Access s.objects node k) ∧
      ∀ c : Call, c.Distinct → (c.apply s.graph).isSome = true := by
  have hm := node_graph_mirrors h
  refine ⟨hm.has_path_from_iff_access, fun c hc => ?_⟩
  obtain ⟨g', happly, _⟩ := Call.apply_mirrors hc hm
  rw [happly]
  rfl

/-- The graph keeps no garbage: an object has a vertex exactly as long as a stored object
    relates it to another. -/
theorem vertex_iff_related {tr : List Call} {s : State}
    (h : ExecWhen (node_graph threshold) (fun _ _ c => c.Distinct) tr s) (k : Key) :
    (∃ a, s.graph.vertices.lookup k = some a) ↔
      ∃ k' d, s.objects.links k k' d ∨ s.objects.links k' k d := by
  have hm := node_graph_mirrors h
  constructor
  · rintro ⟨a, ha⟩
    obtain ⟨b, ⟨f, t, dest⟩, he⟩ := (hm.tidy k a ha).resolve_left id
    obtain ⟨_, k', _, hk'⟩ := hm.exists_keys he
    -- the edge leads from the object or to it
    rcases hm.wf.ends a b _ he with ⟨rfl, rfl⟩ | ⟨rfl, rfl⟩
    · obtain ⟨d, -, hd⟩ := hm.edge_link ha hk' he
      exact ⟨k', d, .inl hd⟩
    · obtain ⟨d, -, hd⟩ := hm.edge_link hk' ha (hm.wf.sym _ _ _ he)
      exact ⟨k', d, .inr hd⟩
  · rintro ⟨k', d, hd | hd⟩
    · obtain ⟨a, _, _, ha, _⟩ := (hm.link_iff k k' d).mpr hd
      exact ⟨a, ha⟩
    · obtain ⟨_, a, _, _, ha, _⟩ := (hm.link_iff k' k d).mpr hd
      exact ⟨a, ha⟩

/-! ### A pod that names a secret twice -/

/-- A container whose environment is taken from the secret `s`. -/
def secret_container : Container := ⟨none, some [⟨some "s", none⟩]⟩

/-- A pod in the namespace `a` on a node. -/
def pod_on (name node : String) (containers : List Container) : Pod where
  ns := some "a"
  name := name
  annotations := none
  spec := some ⟨containers, none, none, none, some node, none, none, none⟩
  status := none

def secret_s : Key := ⟨.Secret, "a", "s"⟩

/-- Two pods take the secret; another pod of the first one's node does not. The
    first is deleted. Newest first. -/
def deleted_again (first : List Container) : List Call :=
  [.delete_pod "p" "a",
    .add_pod (pod_on "r" "n" []),
    .add_pod (pod_on "q" "m" [secret_container]),
    .add_pod (pod_on "p" "n" first)]

/-- The graph after calls, newest first, with its maps listed as they are built. -/
def graph_after (threshold : Nat) : List Call → Option GraphInner
  | [] => some (GraphInner.new threshold)
  | c :: rest => (graph_after threshold rest).bind c.apply

def objects_after : List Call → Objects
  | [] => .none_yet
  | c :: rest => (objects_after rest).after c

theorem exec_graph_after (ok : Call → Prop) {cs : List Call} (h : graph_after threshold cs = some g)
    (hok : ∀ c ∈ cs, ok c) :
    ExecWhen (node_graph threshold) (fun _ _ c => ok c) cs ⟨g, objects_after cs⟩ := by
  induction cs generalizing g with
  | nil =>
    cases h
    exact .init rfl
  | cons c rest ih =>
    obtain ⟨g₁, h₁, happly⟩ := Option.bind_eq_some_iff.mp h
    exact .step (ih h₁ fun c' hc' => hok c' (.tail _ hc'))
      (hok c (.head _)) ⟨g, happly, .refl g, rfl⟩

theorem deleted_again_stored {first : List Container} {k : Key} {o : Object}
    (h : (objects_after (deleted_again first)).get k = some o) :
    o = .pod (pod_on "r" "n" []) ∨ o = .pod (pod_on "q" "m" [secret_container]) := by
  simp only [objects_after, deleted_again, Objects.after, Call.object, Objects.none_yet,
    Function.update_apply] at h
  split_ifs at h with hp hr hq hp'
  · exact .inl (Option.some.inj h).symm
  · exact .inr (Option.some.inj h).symm
  · exact absurd hp' hp

theorem deleted_again_no_access (first : List Container) :
    ¬ Access (objects_after (deleted_again first)) "n" secret_s := by
  have hpv : ∀ k v, (objects_after (deleted_again first)).get k ≠ some (.pv v) := by
    intro k v hv
    rcases deleted_again_stored hv with heq | heq
    · cases heq
    · cases heq
  intro h
  cases h with
  | named ho _ => nomatch Objects.added_of_get ho
  | referenced href =>
    obtain ⟨j, p, hp, hnode, hmem⟩ := href
    rcases deleted_again_stored hp with heq | heq
    · cases heq
      nomatch hmem
    · cases heq
      nomatch hnode
  | volume hv _ _ | volume_secret hv _ _ _ => exact hpv _ _ hv

/-- Named once, the secret is out of reach as soon as the pod is gone. -/
theorem has_path_from_exact_deleted :
    ∃ g, graph_after 1 (deleted_again [secret_container]) = some g ∧
      g.has_path_from "m" secret_s = .ok true ∧ g.has_path_from "n" secret_s ≠ .ok true := by
  have hsome : (graph_after 1 (deleted_again [secret_container])).isSome = true := by decide
  obtain ⟨g, hg⟩ := Option.isSome_iff_exists.mp hsome
  have hrun := exec_graph_after Call.Distinct hg (by
    intro c hc pod heq
    subst heq
    simp only [deleted_again, List.mem_cons, reduceCtorEq, Call.add_pod.injEq, List.not_mem_nil,
      or_false, false_or] at hc
    rcases hc with rfl | rfl | rfl <;> decide)
  have hexact := (has_path_from_exact hrun).1
  refine ⟨g, hg, (hexact "m" secret_s).mpr ?_, fun hpath => ?_⟩
  · exact .referenced ⟨pod_key "a" "q", pod_on "q" "m" [secret_container], rfl, rfl, by decide⟩
  · exact deleted_again_no_access _ ((hexact "n" secret_s).mp hpath)

/-- A pod relates the secret that it names. -/
theorem vertex_iff_related_secret :
    let os := objects_after [.add_pod (pod_on "q" "m" [secret_container])]
    ∃ k d, os.links secret_s k d ∨ os.links k secret_s d := by
  have hg : graph_after 1 [.add_pod (pod_on "q" "m" [secret_container])] = some _ := rfl
  refine (vertex_iff_related (exec_graph_after Call.Distinct hg ?_) secret_s).mp ⟨_, rfl⟩
  rintro _ (_ | ⟨_, ⟨⟩⟩) _ ⟨⟩
  decide

/-- Named by two containers, it stays in reach. -/
theorem twice_named_keeps_access :
    ∃ g, Exec (node_graph 1) (deleted_again [secret_container, secret_container])
        ⟨g, objects_after (deleted_again [secret_container, secret_container])⟩ ∧
      g.has_path_from "n" secret_s = .ok true ∧
      ¬ Access (objects_after (deleted_again [secret_container, secret_container])) "n" secret_s := by
  have hpath : (graph_after 1 (deleted_again [secret_container, secret_container])).map
      (fun g => g.has_path_from "n" secret_s) = some (.ok true) := by decide
  obtain ⟨g, hg, hok⟩ := Option.map_eq_some_iff.mp hpath
  have hrun := exec_graph_after (fun _ => True) hg (fun _ _ => trivial)
  exact ⟨g, hrun.exec, hok, deleted_again_no_access _⟩

end NodeGraph
