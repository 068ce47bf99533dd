import Rusternetes.NodeGraph.Paths
import Rusternetes.NodeGraph.Visitors

/-! # The Node Authorizer's Graph: The Calls

    `NodeGraph`: objects are added, replaced and deleted. Beside the graph stand
    the objects themselves, as last added and not deleted. Each call keeps the
    graph a mirror of the relationships of these objects.
-/

namespace NodeGraph

open Function GraphInner

/-! ### The calls of the source -/

structure PodCertificateRequest where
  ns : Option String
  name : String
  node_name : String

namespace GraphInner

/-- Find or create the vertex of `k` and add an edge from it. -/
def relate (to_vertex : Nat) (destination : Option Nat) (g : GraphInner) (k : Key) :
    Option GraphInner := do
  let (g, v) ← g.get_or_create_vertex k
  g.add_edge v to_vertex destination

def relate_to_node (g : GraphInner) (k : Key) (node_name : String) :
    Option (GraphInner × Nat × Nat) := do
  let (g, v) ← g.get_or_create_vertex k
  let (g, node_vertex) ← g.get_or_create_vertex (node_key node_name)
  let g ← g.add_edge v node_vertex (some node_vertex)
  return (g, v, node_vertex)

def pod_key (ns name : String) : Key := ⟨.Pod, ns, name⟩

def add_pod (g : GraphInner) (pod : Pod) : Option GraphInner := do
  let k := pod_key pod.namespace_or_empty pod.name
  let (g, pod_vertex, node_vertex) ← (g.delete_vertex k).relate_to_node k pod.node_name
  pod.references.foldlM (relate pod_vertex (some node_vertex)) g

def delete_pod (g : GraphInner) (name ns : String) : GraphInner :=
  g.delete_vertex (pod_key ns name)

def pcr_key (pcr : PodCertificateRequest) : Key := ⟨.Pcr, pcr.ns.getD "", pcr.name⟩

def add_pod_certificate_request (g : GraphInner) (pcr : PodCertificateRequest) :
    Option GraphInner := do
  let (g, _, _) ← (g.delete_vertex (pcr_key pcr)).relate_to_node (pcr_key pcr) pcr.node_name
  return g

def delete_pod_certificate_request (g : GraphInner) (pcr : PodCertificateRequest) : GraphInner :=
  g.delete_vertex (pcr_key pcr)

def pv_key (name : String) : Key := ⟨.Pv, "", name⟩

def add_pv (g : GraphInner) (pv : PersistentVolume) : Option GraphInner :=
  let g := g.delete_vertex (pv_key pv.name)
  match pv.claim with
  | none => some g
  | some claim => do
    let (g, pv_vertex) ← g.get_or_create_vertex (pv_key pv.name)
    let (g, pvc_vertex) ← g.get_or_create_vertex claim
    let g ← g.add_edge pv_vertex pvc_vertex none
    pv.visible_secrets.foldlM (relate pv_vertex none) g

def delete_pv (g : GraphInner) (name : String) : GraphInner := g.delete_vertex (pv_key name)

/-- An object that has a node or none, as attachments and slices do. -/
def add_named (g : GraphInner) (k : Key) (node_name : String) : Option GraphInner :=
  let g := g.delete_vertex k
  if node_name = "" then some g
  else do
    let (g, _, _) ← g.relate_to_node k node_name
    return g

def va_key (name : String) : Key := ⟨.Va, "", name⟩

def add_volume_attachment (g : GraphInner) (attachment_name node_name : String) :
    Option GraphInner :=
  g.add_named (va_key attachment_name) node_name

def delete_volume_attachment (g : GraphInner) (name : String) : GraphInner :=
  g.delete_vertex (va_key name)

def slice_key (name : String) : Key := ⟨.Slice, "", name⟩

def add_resource_slice (g : GraphInner) (slice_name node_name : String) : Option GraphInner :=
  g.add_named (slice_key slice_name) node_name

def delete_resource_slice (g : GraphInner) (slice_name : String) : GraphInner :=
  g.delete_vertex (slice_key slice_name)

end GraphInner

inductive Call where
  | add_pod (pod : Pod)
  | delete_pod (name ns : String)
  | add_pv (pv : PersistentVolume)
  | delete_pv (name : String)
  | add_volume_attachment (attachment_name node_name : String)
  | delete_volume_attachment (name : String)
  | add_resource_slice (slice_name node_name : String)
  | delete_resource_slice (slice_name : String)
  | add_pod_certificate_request (pcr : PodCertificateRequest)
  | delete_pod_certificate_request (pcr : PodCertificateRequest)

/-- What a call does to the graph; `none` when an assertion fails. -/
def Call.apply (c : Call) (g : GraphInner) : Option GraphInner :=
  match c with
  | .add_pod pod => g.add_pod pod
  | .delete_pod name ns => some (g.delete_pod name ns)
  | .add_pv pv => g.add_pv pv
  | .delete_pv name => some (g.delete_pv name)
  | .add_volume_attachment name node_name => g.add_volume_attachment name node_name
  | .delete_volume_attachment name => some (g.delete_volume_attachment name)
  | .add_resource_slice name node_name => g.add_resource_slice name node_name
  | .delete_resource_slice name => some (g.delete_resource_slice name)
  | .add_pod_certificate_request pcr => g.add_pod_certificate_request pcr
  | .delete_pod_certificate_request pcr => some (g.delete_pod_certificate_request pcr)

/-! ### The objects -/

/-- An object the graph was told of. -/
inductive Object where
  | pod (p : Pod)
  | pv (v : PersistentVolume)
  | attachment (node_name : String)
  | slice (node_name : String)
  | pcr (node_name : String)

namespace Object

def vertex_type : Object → VertexType
  | .pod _ => .Pod
  | .pv _ => .Pv
  | .attachment _ => .Va
  | .slice _ => .Slice
  | .pcr _ => .Pcr

def node_name : Object → Option String
  | .pod p => some p.node_name
  | .pv _ => none
  | .attachment n => if n = "" then none else some n
  | .slice n => if n = "" then none else some n
  | .pcr n => some n

/-- The object that the object under `k` points to, and the node this leads to. -/
def target : Object → Option (Key × Option String)
  | .pv v => v.claim.map fun claim => (claim, none)
  | o => o.node_name.map fun n => (node_key n, some n)

def sources : Object → List Key
  | .pod p => p.references
  | .pv v => v.visible_secrets
  | _ => []

end Object

/-- The objects last added and not deleted, under their keys. -/
structure Objects where
  get : Key → Option Object
  typed : ∀ k o, get k = some o → o.vertex_type = k.vertex_type

def Call.key : Call → Key
  | .add_pod pod => pod_key pod.namespace_or_empty pod.name
  | .delete_pod name ns => pod_key ns name
  | .add_pv pv => pv_key pv.name
  | .delete_pv name => pv_key name
  | .add_volume_attachment name _ => va_key name
  | .delete_volume_attachment name => va_key name
  | .add_resource_slice name _ => slice_key name
  | .delete_resource_slice name => slice_key name
  | .add_pod_certificate_request pcr => pcr_key pcr
  | .delete_pod_certificate_request pcr => pcr_key pcr

def Call.object : Call → Option Object
  | .add_pod pod => some (.pod pod)
  | .add_pv pv => some (.pv pv)
  | .add_volume_attachment _ node_name => some (.attachment node_name)
  | .add_resource_slice _ node_name => some (.slice node_name)
  | .add_pod_certificate_request pcr => some (.pcr pcr.node_name)
  | _ => none

variable {o : Object}

theorem Call.object_typed {c : Call} (h : c.object = some o) :
    o.vertex_type = c.key.vertex_type := by
  cases c <;> simp only [Call.object, reduceCtorEq, Option.some.injEq] at h <;> subst h <;> rfl

namespace Objects

def none_yet : Objects := ⟨fun _ => none, by simp⟩

def after (os : Objects) (c : Call) : Objects where
  get := Function.update os.get c.key c.object
  typed := by
    intro k o hk
    by_cases heq : k = c.key
    · subst heq
      rw [update_self] at hk
      exact Call.object_typed hk
    · rw [update_of_ne heq] at hk
      exact os.typed k o hk

/-- The relationships of the object under `owner`. -/
def of_object (o : Object) (owner : Key) : Relationships := fun k k' d =>
  (k = owner ∧ o.target = some (k', d)) ∨
    (k' = owner ∧ k ∈ o.sources ∧ ∃ t, o.target = some (t, d))

def links (os : Objects) : Relationships := fun k k' d =>
  ∃ owner o, os.get owner = some o ∧ of_object o owner k k' d

end Objects

/-! ### The kinds of objects -/

/-- The types of the objects that calls add. All relationships are between one of
    these and one of another type. -/
def VertexType.added : VertexType → Bool
  | .Pod | .Pv | .Va | .Slice | .Pcr => true
  | _ => false

theorem Call.key_added (c : Call) : c.key.vertex_type.added = true := by
  cases c <;> rfl

namespace Object

theorem vertex_type_added (o : Object) : o.vertex_type.added = true := by
  cases o <;> rfl

variable {k : Key}

theorem mem_references_type {pod : Pod} (h : k ∈ pod.references) :
    k.ns = pod.namespace_or_empty ∧ k.vertex_type.added = false ∧ k.vertex_type ≠ .Node := by
  unfold Pod.references at h
  split_ifs at h with hmirror
  · cases h
  · split at h
    · cases h
    · simp only [List.mem_append, List.mem_map] at h
      -- one case for each kind of reference
      rcases h with ((((⟨_, _, rfl⟩ | ⟨_, _, rfl⟩) | ⟨_, _, rfl⟩) | ⟨_, _, rfl⟩) | ⟨_, _, rfl⟩) |
        ⟨_, _, rfl⟩ <;>
      exact ⟨rfl, rfl, by simp⟩

theorem mem_visible_secrets_type {pv : PersistentVolume} (h : k ∈ pv.visible_secrets) :
    k.vertex_type = .Secret := by
  obtain ⟨s, _, hs⟩ := List.mem_filterMap.mp h
  split_ifs at hs
  exact (Option.some.inj hs) ▸ rfl

theorem claim_type {pv : PersistentVolume} (h : pv.claim = some k) : k.vertex_type = .Pvc := by
  obtain ⟨c, _, rfl⟩ := Option.map_eq_some_iff.mp h
  rfl

variable {d : Option String} {o : Object} {t : Key}

theorem target_some_iff {n : String} :
    o.target = some (t, some n) ↔ o.node_name = some n ∧ t = node_key n := by
  cases o with
  | pv v => simp [target, node_name]
  | pod p | attachment m | slice m | pcr m => simp [target, eq_comm (a := t)]

theorem target_none_iff : o.target = some (t, none) ↔ ∃ v, o = .pv v ∧ v.claim = some t := by
  cases o with
  | pv v => simp [target]
  | pod p | attachment m | slice m | pcr m => simp [target]

/-- An object that points to a node leads to it; others are persistent volumes. -/
theorem target_cases (h : o.target = some (t, d)) :
    (∃ n, o.node_name = some n ∧ t = node_key n ∧ d = some n) ∨
      ∃ v, o = .pv v ∧ v.claim = some t ∧ d = none := by
  cases d with
  | some n =>
    obtain ⟨hnode, ht⟩ := target_some_iff.mp h
    exact .inl ⟨n, hnode, ht, rfl⟩
  | none =>
    obtain ⟨v, ho, hclaim⟩ := target_none_iff.mp h
    exact .inr ⟨v, ho, hclaim, rfl⟩

theorem target_not_added (h : o.target = some (t, d)) : t.vertex_type.added = false := by
  rcases target_cases h with ⟨n, _, rfl, _⟩ | ⟨v, _, hclaim, _⟩
  · rfl
  · rw [claim_type hclaim]
    rfl

theorem source_not_added (h : k ∈ o.sources) : k.vertex_type.added = false := by
  cases o with
  | pod p => exact (mem_references_type h).2.1
  | pv v =>
    rw [mem_visible_secrets_type h]
    rfl
  | attachment n | slice n | pcr n => cases h

/-- What points to an object is not what it points to. -/
theorem source_ne_target (hk : k ∈ o.sources) (h : o.target = some (t, d)) : k ≠ t := by
  rintro rfl
  cases o with
  | pod p =>
    rcases target_cases h with ⟨n, _, rfl, _⟩ | ⟨v, heq, _⟩
    · exact (mem_references_type hk).2.2 rfl
    · cases heq
  | pv v =>
    obtain ⟨claim, hclaim, heq⟩ := Option.map_eq_some_iff.mp h
    obtain ⟨rfl, _⟩ := Prod.mk.inj heq
    have hsecret := mem_visible_secrets_type hk
    rw [claim_type hclaim] at hsecret
    cases hsecret
  | attachment n | slice n | pcr n => cases hk

/-- Relationships that do not lead to a node start at volumes and secrets. -/
theorem searched_of_target_none (h : o.target = some (t, none)) :
    o.vertex_type.has_authoritative_index = false ∧ t.vertex_type ≠ .Node ∧
      ∀ k ∈ o.sources, k.vertex_type.has_authoritative_index = false := by
  obtain ⟨v, rfl, hclaim⟩ := target_none_iff.mp h
  refine ⟨rfl, by rw [claim_type hclaim]; simp, fun k hk => ?_⟩
  rw [mem_visible_secrets_type hk]
  rfl

end Object

namespace Objects

theorem added_of_get {os : Objects} {k : Key} (h : os.get k = some o) :
    k.vertex_type.added = true := by
  rw [← os.typed k o h]
  exact o.vertex_type_added

theorem links_regular (os : Objects) : Regular os.links := by
  refine ⟨?_, ?_, ?_⟩
  · rintro k k' n ⟨owner, o, ho, ⟨rfl, ht⟩ | ⟨rfl, _, t, ht⟩⟩
    · exact .inl (Object.target_some_iff.mp ht).2
    · obtain ⟨_, rfl⟩ := Object.target_some_iff.mp ht
      exact .inr ⟨k', o, ho, .inl ⟨rfl, ht⟩⟩
  · rintro k k' ⟨owner, o, ho, ⟨rfl, ht⟩ | ⟨rfl, hk, t, ht⟩⟩
    · rw [← os.typed k o ho]
      exact (Object.searched_of_target_none ht).1
    · exact (Object.searched_of_target_none ht).2.2 k hk
  · rintro k k' ⟨owner, o, ho, ⟨rfl, ht⟩ | ⟨rfl, _, t, ht⟩⟩
    · exact (Object.searched_of_target_none ht).2.1
    · intro hnode
      have hadded := added_of_get ho
      rw [hnode] at hadded
      nomatch hadded

/-- The relationships of the other objects are those that do not touch `k`. -/
theorem links_without_iff (os : Objects) {k : Key} (hk : k.vertex_type.added = true)
    (x y : Key) (d : Option String) :
    os.links.without k x y d ↔
      ∃ owner o, owner ≠ k ∧ os.get owner = some o ∧ of_object o owner x y d := by
  have hne : ∀ {j : Key}, j.vertex_type.added = false → j ≠ k := by
    rintro j hj rfl
    rw [hk] at hj
    cases hj
  constructor
  · rintro ⟨⟨owner, o, ho, hof⟩, hx, hy⟩
    refine ⟨owner, o, ?_, ho, hof⟩
    rcases hof with ⟨rfl, _⟩ | ⟨rfl, _⟩
    · exact hx
    · exact hy
  · rintro ⟨owner, o, howner, ho, hof⟩
    refine ⟨⟨owner, o, ho, hof⟩, ?_⟩
    rcases hof with ⟨rfl, ht⟩ | ⟨rfl, hsource, _⟩
    · exact ⟨howner, hne (Object.target_not_added ht)⟩
    · exact ⟨hne (Object.source_not_added hsource), howner⟩

theorem links_after_iff (os : Objects) (c : Call) (x y : Key) (d : Option String) :
    (os.after c).links x y d ↔
      os.links.without c.key x y d ∨ ∃ o, c.object = some o ∧ of_object o c.key x y d := by
  rw [os.links_without_iff c.key_added]
  unfold links after
  simp only
  constructor
  · rintro ⟨owner, o, ho, hof⟩
    by_cases heq : owner = c.key
    · subst heq
      rw [update_self] at ho
      exact .inr ⟨o, ho, hof⟩
    · rw [update_of_ne heq] at ho
      exact .inl ⟨owner, o, heq, ho, hof⟩
  · rintro (⟨owner, o, hne, ho, hof⟩ | ⟨o, ho, hof⟩)
    · exact ⟨owner, o, by rw [update_of_ne hne, ho], hof⟩
    · exact ⟨c.key, o, by rw [update_self, ho], hof⟩

end Objects

/-! ### What the calls do -/

namespace GraphInner

/-- What all calls that add have in common: the edge from an object to its target,
    and the edges to it. -/
def install (g : GraphInner) (k t : Key) (known : Bool) (sources : List Key) :
    Option GraphInner := do
  let (g, v) ← g.get_or_create_vertex k
  let (g, w) ← g.get_or_create_vertex t
  let destination := if known then some w else none
  let g ← g.add_edge v w destination
  sources.foldlM (relate v destination) g

namespace Mirrors

variable {g : GraphInner} {L L' : Relationships} {spare spare' : Set Key}

theorem congr (h : Mirrors g L spare) (hL : ∀ x y d, L x y d ↔ L' x y d) : Mirrors g L' spare :=
  { h with link_iff := fun x y d => (h.link_iff x y d).trans (hL x y d) }

theorem mono (h : Mirrors g L spare) (hs : spare ⊆ spare') : Mirrors g L spare' :=
  { h with tidy := fun k a hk => (h.tidy k a hk).imp_left (hs ·) }

/-- Relationships from several objects to one. -/
theorem relate_all (h : Mirrors g L ∅) {k : Key} {v : Nat} {dest : Option Nat} {d : Option String}
    (hk : g.vertices.lookup k = some v) (hlead : g.leads dest d) {ks : List Key}
    (hne : ∀ j ∈ ks, j ≠ k) (hback : ∀ j ∈ ks, ∀ d', ¬ L k j d')
    (hsame : ∀ j ∈ ks, ∀ d', L j k d' → d = none ∧ d' = none)
    (hsearched : ∀ j ∈ ks, d = none → j.vertex_type.has_authoritative_index = false)
    (hnodup : d ≠ none → ks.Nodup) :
    ∃ g', ks.foldlM (relate v dest) g = some g' ∧
      Mirrors g' (fun x y d' => L x y d' ∨ (x ∈ ks ∧ y = k ∧ d' = d)) ∅ := by
  induction ks generalizing g L with
  | nil => exact ⟨g, rfl, h.congr fun x y d' => by simp⟩
  | cons j rest ih =>
    obtain ⟨g₁, a, hcreate, h₁, ha, hmono⟩ := h.get_or_create_vertex j
    have hlead₁ := leads_mono hmono hlead
    have hjk : j ≠ k := hne j (.head _)
    obtain ⟨g₂, hadd, h₂, hvert⟩ := h₁.add_edge ha (hmono k v hk) hlead₁ hjk
      (hback j (.head _)) (hsame j (.head _)) (hsearched j (.head _))
    have h₂ : Mirrors g₂ (L.add j k d) ∅ := h₂.mono (by
      rintro x ⟨hx, hno⟩
      simp only [Set.mem_insert_iff, Set.mem_empty_iff_false, or_false] at hx
      exact absurd (.inl hx) hno)
    have hkept : ∀ k' b, g₁.vertices.lookup k' = some b → g₂.vertices.lookup k' = some b := by
      rw [hvert]
      exact fun _ _ hb => hb
    obtain ⟨g', hfold, h'⟩ := ih h₂ (hkept k v (hmono k v hk)) (leads_mono hkept hlead₁)
      (fun i hi => hne i (.tail _ hi))
      (fun i hi d' => by
        rintro (hL | ⟨heq, _⟩)
        · exact hback i (.tail _ hi) d' hL
        · exact hjk heq.symm)
      (fun i hi d' => by
        -- the relationship added just now is there twice only without a node
        rintro (hL | ⟨rfl, _, rfl⟩)
        · exact hsame i (.tail _ hi) d' hL
        · by_cases hd : d' = none
          · exact ⟨hd, hd⟩
          · exact absurd hi (List.nodup_cons.mp (hnodup hd)).1)
      (fun i hi => hsearched i (.tail _ hi))
      (fun hd => (List.nodup_cons.mp (hnodup hd)).2)
    refine ⟨g', ?_, h'.congr fun x y d' => ?_⟩
    · rw [List.foldlM_cons]
      simp only [relate, hcreate, Option.bind_eq_bind, Option.bind_some, hadd]
      exact hfold
    · unfold Relationships.add
      simp only [List.mem_cons]
      tauto

theorem install (h : Mirrors g L ∅) {k : Key} {t : Key} {d : Option String}
    (hk : k.vertex_type = o.vertex_type) (hout : ∀ x d', ¬ L k x d') (hin : ∀ x d', ¬ L x k d')
    (ht : o.target = some (t, d)) (hnodup : d ≠ none → o.sources.Nodup) :
    ∃ g', g.install k t d.isSome o.sources = some g' ∧
      Mirrors g' (fun x y d' => L x y d' ∨ Objects.of_object o k x y d') ∅ := by
  have hadded : k.vertex_type.added = true := by
    rw [hk]
    exact o.vertex_type_added
  have hneAdded : ∀ {j : Key}, j.vertex_type.added = false → j ≠ k := by
    rintro j hj rfl
    rw [hadded] at hj
    cases hj
  have hkt : k ≠ t := (hneAdded (Object.target_not_added ht)).symm
  obtain ⟨g₁, v, hcreate₁, h₁, hv₁, _⟩ := h.get_or_create_vertex k
  obtain ⟨g₂, w, hcreate₂, h₂, hw, hmono⟩ := h₁.get_or_create_vertex t
  have hlead : g₂.leads (if d.isSome then some w else none) d := by
    rcases Object.target_cases ht with ⟨n, _, rfl, rfl⟩ | ⟨_, _, _, rfl⟩
    · exact hw
    · trivial
  obtain ⟨g₃, hadd, h₃, hvert⟩ := h₂.add_edge (hmono k v hv₁) hw hlead hkt (fun d' => hin t d')
    (fun d' hL => absurd hL (hout t d'))
    (fun hd => by
      subst hd
      rw [hk]
      exact (Object.searched_of_target_none ht).1)
  have h₃ : Mirrors g₃ (L.add k t d) ∅ := h₃.mono (by
    rintro x ⟨hx, hno⟩
    simp only [Set.mem_insert_iff, Set.mem_empty_iff_false, or_false] at hx hno
    tauto)
  have hkept : ∀ k' b, g₂.vertices.lookup k' = some b → g₃.vertices.lookup k' = some b := by
    rw [hvert]
    exact fun _ _ hb => hb
  obtain ⟨g', hfold, h'⟩ := h₃.relate_all (hkept k v (hmono k v hv₁)) (leads_mono hkept hlead)
    (fun j hj => hneAdded (Object.source_not_added hj))
    (fun j hj d' => by
      rintro (hL | ⟨_, heq, _⟩)
      · exact hout j d' hL
      · exact Object.source_ne_target hj ht heq)
    (fun j hj d' => by
      rintro (hL | ⟨heq, _⟩)
      · exact absurd hL (hin j d')
      · exact absurd heq (hneAdded (Object.source_not_added hj)))
    (fun j hj hd => by
      subst hd
      exact (Object.searched_of_target_none ht).2.2 j hj)
    hnodup
  refine ⟨g', ?_, h'.congr fun x y d' => ?_⟩
  · simp only [GraphInner.install, hcreate₁, hcreate₂, Option.bind_eq_bind, Option.bind_some, hadd]
    exact hfold
  · unfold Relationships.add Objects.of_object
    simp only [ht, Option.some.injEq, Prod.mk.injEq]
    constructor
    · rintro ((hL | ⟨rfl, rfl, rfl⟩) | ⟨hx, rfl, rfl⟩)
      · exact .inl hL
      · exact .inr (.inl ⟨rfl, rfl, rfl⟩)
      · exact .inr (.inr ⟨rfl, hx, t, rfl, rfl⟩)
    · rintro (hL | ⟨rfl, rfl, rfl⟩ | ⟨rfl, hx, _, _, rfl⟩)
      · exact .inl (.inl hL)
      · exact .inl (.inr ⟨rfl, rfl, rfl⟩)
      · exact .inr ⟨hx, rfl, rfl⟩

end Mirrors

end GraphInner

namespace Call

variable {c : Call}

theorem apply_of_target_none (h : c.object.bind Object.target = none) (g : GraphInner) :
    c.apply g = some (g.delete_vertex c.key) := by
  cases c with
  | add_pv pv =>
    have hclaim : pv.claim = none := by simpa [object, Object.target] using h
    simp only [apply, GraphInner.add_pv, hclaim]
    rfl
  | add_volume_attachment name n | add_resource_slice name n =>
    have hn : n = "" := by simpa [object, Object.target, Object.node_name] using h
    simp only [apply, GraphInner.add_volume_attachment, GraphInner.add_resource_slice, add_named, hn,
      if_true]
    rfl
  | add_pod | add_pod_certificate_request => cases h
  | delete_pod | delete_pv | delete_volume_attachment | delete_resource_slice
  | delete_pod_certificate_request => rfl

theorem add_named_eq (g : GraphInner) (k : Key) {n : String} (hn : n ≠ "") :
    g.add_named k n = (g.delete_vertex k).install k (node_key n) true [] := by
  simp only [add_named, hn, if_false, relate_to_node, GraphInner.install, Option.bind_eq_bind,
    Option.bind_assoc]
  rfl

theorem apply_of_target_some {t : Key} {d : Option String} (ho : c.object = some o)
    (ht : o.target = some (t, d)) (g : GraphInner) :
    c.apply g = (g.delete_vertex c.key).install c.key t d.isSome o.sources := by
  cases c with
  | add_pod | add_pod_certificate_request =>
    cases ho
    cases ht
    simp only [apply, GraphInner.add_pod, GraphInner.add_pod_certificate_request, relate_to_node,
      GraphInner.install, Option.bind_eq_bind, Option.bind_assoc]
    rfl
  | add_pv pv =>
    cases ho
    obtain ⟨claim, hclaim, heq⟩ := Option.map_eq_some_iff.mp ht
    cases heq
    simp only [apply, GraphInner.add_pv, hclaim, GraphInner.install]
    rfl
  | add_volume_attachment name n | add_resource_slice name n =>
    cases ho
    rcases Object.target_cases ht with ⟨m, hm, rfl, rfl⟩ | ⟨_, heq, _⟩
    · have hn : n ≠ "" ∧ n = m := by simpa [Object.node_name] using hm
      obtain ⟨hn, rfl⟩ := hn
      exact add_named_eq g _ hn
    · cases heq
  | delete_pod | delete_pv | delete_volume_attachment | delete_resource_slice
  | delete_pod_certificate_request => cases ho

/-- An added pod names every object once. -/
def Distinct (c : Call) : Prop := ∀ pod, c = .add_pod pod → pod.references.Nodup

theorem Distinct.sources_nodup (hc : c.Distinct) {t : Key} {d : Option String}
    (ho : c.object = some o) (ht : o.target = some (t, d)) (hd : d ≠ none) : o.sources.Nodup := by
  cases o with
  | pod p =>
    cases c with
    | add_pod pod =>
      obtain rfl := Object.pod.inj (Option.some.inj ho)
      exact hc pod rfl
    | _ => cases ho
  | pv v =>
    rcases Object.target_cases ht with ⟨_, hnode, _⟩ | ⟨_, _, _, hnone⟩
    · cases hnode
    · exact absurd hnone hd
  | attachment n | slice n | pcr n => exact List.nodup_nil

theorem apply_mirrors (hc : c.Distinct) {g : GraphInner} {os : Objects} (h : Mirrors g os.links ∅) :
    ∃ g', c.apply g = some g' ∧ Mirrors g' (os.after c).links ∅ := by
  have hnode : c.key.vertex_type ≠ .Node := by
    intro heq
    have hadded := c.key_added
    rw [heq] at hadded
    nomatch hadded
  have hdel := h.delete_vertex os.links_regular hnode
  cases htarget : c.object.bind Object.target with
  | none =>
    refine ⟨_, apply_of_target_none htarget g, hdel.congr fun x y d => ?_⟩
    rw [os.links_after_iff]
    refine ⟨.inl, ?_⟩
    rintro (hL | ⟨o, ho, hof⟩)
    · exact hL
    · -- without a target there are no relationships
      rw [ho, Option.bind_some] at htarget
      rcases hof with ⟨_, ht⟩ | ⟨_, _, t, ht⟩
      · exact absurd ht (by rw [htarget]; simp)
      · exact absurd ht (by rw [htarget]; simp)
  | some td =>
    obtain ⟨t, d⟩ := td
    obtain ⟨o, ho, ht⟩ := Option.bind_eq_some_iff.mp htarget
    obtain ⟨g', hinstall, h'⟩ := hdel.install (object_typed ho).symm (fun x d' hL => hL.2.1 rfl)
      (fun x d' hL => hL.2.2 rfl) ht (hc.sources_nodup ho ht)
    refine ⟨g', (apply_of_target_some ho ht g).trans hinstall, h'.congr fun x y d' => ?_⟩
    rw [os.links_after_iff]
    simp [ho]

end Call

end NodeGraph
