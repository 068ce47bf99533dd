import Rusternetes.NodeIpam.Ownership

/-! # Steps Keep the Blocks Apart

    A block has one owner: a node, a worker, the release loop or the service CIDRs. An
    allocation, a patch and a release hand it on, and no other step moves it.
-/

open Framework Function LTS List Set

namespace NodeIpam

variable {ω : Type} [DecidableEq ω] {services : List IpNet} {nets : List CidrSet}
  {s s' : State ω} {l : Label ω}

/-! ### Steps -/

def WorkerItems (nets : List CidrSet) (items : List Item) : Prop :=
  (∀ item ∈ items, ∃ set b, nets[item.1]? = some set ∧ b < set.max_cidrs ∧
    item.2 = set.index_to_cidr_block b) ∧ (items.map Prod.fst).Nodup

theorem WorkerItems.sublist {items items' : List Item} (h : WorkerItems nets items)
    (hsub : items'.Sublist items) : WorkerItems nets items' :=
  ⟨fun item hitem => h.1 item (hsub.subset hitem), h.2.sublist (hsub.map _)⟩

variable (h : Owned services nets s)
include h

omit [DecidableEq ω] in
theorem Owned.items (w : ω) : WorkerItems nets (s.worker w).items :=
  ⟨h.blocks w, h.worker_items w⟩

theorem Owned.items_go {w : ω} {phase : Phase} (hitems : WorkerItems nets phase.items) :
    ∀ v, WorkerItems nets (Function.update s.worker w phase v).items :=
  (forall_update_iff s.worker fun _ phase => WorkerItems nets phase.items).mpr
    ⟨hitems, fun v _ => h.items v⟩

theorem Owned.go {w : ω} {phase : Phase} {sets : List CidrSet}
    (hframed : Framed nets sets) (hitems : WorkerItems nets phase.items)
    (hapart : Apart (live sets) (own services nets (s.go w phase))) :
    Owned services nets { s.go w phase with sets := sets } :=
  { h with
    framed := hframed
    apart := hapart
    blocks := fun v => (h.items_go hitems v).1
    worker_items := fun v => (h.items_go hitems v).2 }

variable {name : String}

/-- **A patch** hands the blocks of the worker to the node. -/
theorem Owned.patch (hfamilies : (nets.map fun set => set.cluster.family).Nodup)
    {w : ω} {allocated : List IpNet} {node : Node}
    (hitems : (s.worker w).items = enumerate allocated) (hnode : s.stored name = some node)
    {phase : Phase} (hphase : phase.items = []) :
    Owned services nets ((s.write name (some (patch_node_cidrs node allocated))
      (.modified (patch_node_cidrs node allocated))).go w phase) := by
  have hblocks : ∀ c ∈ allocated, ∃ item ∈ (s.worker w).items, item.2 = c ∧
      tokens nets c ⊆ item_tokens nets item ∧ (tokens nets c).Nonempty := by
    intro c hc
    obtain ⟨item, hitem, rfl⟩ := mem_enumerate hc
    rw [← hitems] at hitem
    obtain ⟨set, b, hset, hb, hblock⟩ := h.blocks w item hitem
    have hsome : (item_tokens nets item).Nonempty := by
      refine ⟨(item.1, b), ⟨set, hset, hb, ?_⟩, rfl⟩
      rw [hblock, not_disjoint_iff]
      exact ⟨(_, _), ⟨rfl, rfl⟩, ⟨rfl, rfl⟩⟩
    exact ⟨item, hitem, rfl, tokens_of_item hfamilies hsome, hsome.mono fun t ht => ht.1⟩
  have howner : ∀ c ∈ allocated, tokens nets c ⊆ own services nets s (.worker w) := by
    intro c hc t ht
    obtain ⟨item, hitem, -, hsub, -⟩ := hblocks c hc
    exact ⟨item, hitem, hsub ht⟩
  have hstored : ∀ c ∈ node_pod_cidrs node, tokens nets c ⊆
      own services nets s (.node name node.uid) := fun c hc t ht => own_stored hnode ⟨c, hc, ht⟩
  have hothers : ∀ c ∈ node_pod_cidrs node, ∀ c' ∈ allocated,
      Disjoint (tokens nets c) (tokens nets c') := by
    intro c hc c' hc'
    have hne : (Owner.node name node.uid : Owner ω) ≠ .worker w := by simp
    exact (h.apart.disjoint _ _ hne).mono (hstored c hc) (howner c' hc')
  have hnone : phase.items.Sublist (s.worker w).items := hphase ▸ nil_sublist _
  have hworkers := h.items_go (w := w) ((h.items w).sublist hnone)
  refine ⟨h.framed, ?_, fun v => (hworkers v).1, fun v => (hworkers v).2, h.loop_items, ?_⟩
  · refine h.apart.regroup (fun _ i => if i = .worker w then .node name node.uid else i) ?_
    intro i t ht
    have hne : i ≠ .worker w := by
      rintro rfl
      rw [own_go_self hphase] at ht
      exact absurd ht (notMem_empty t)
    have hwrite : t ∈ own services nets (s.write name (WatchEvent.modified
        (patch_node_cidrs node allocated)).result (.modified (patch_node_cidrs node allocated))) i :=
      own_go (by simp [hphase]) i ht
    rcases own_write hwrite with hold | ⟨rfl, c, hc, hnew⟩
    · exact ⟨i, if_neg hne, hold⟩
    · -- one of the node's, or one of the worker's
      rcases mem_pod_cidrs_patch hc with hc | hc
      · exact ⟨_, if_neg hne, hstored c hc hnew⟩
      · exact ⟨.worker w, if_pos rfl, howner c hc hnew⟩
  · refine h.placed_write fun node' hnode' => ?_
    cases hnode'
    have hplaced := h.placed name node hnode
    constructor
    · intro c hc
      rcases mem_pod_cidrs_patch hc with hc | hc
      · exact hplaced.meets c hc
      · obtain ⟨item, -, -, -, hmeets⟩ := hblocks c hc
        exact hmeets
    · intro c hc c' hc' hne
      rcases mem_pod_cidrs_patch hc with hc | hc <;> rcases mem_pod_cidrs_patch hc' with hc' | hc'
      · exact hplaced.within c hc c' hc' hne
      · exact hothers c hc c' hc'
      · exact (hothers c' hc' c hc).symm
      · -- blocks of different sets
        obtain ⟨item, hitem, rfl, hsub, -⟩ := hblocks c hc
        obtain ⟨item', hitem', rfl, hsub', -⟩ := hblocks c' hc'
        refine disjoint_left.mpr ?_
        intro t ht ht'
        refine hne (congrArg Prod.snd (inj_on_of_nodup_map (h.worker_items w) hitem hitem' ?_))
        exact (hsub ht).2.symm.trans (hsub' ht').2

omit [DecidableEq ω] in
theorem Owned.of_copies {known : String → Option Node}
    {pending : String → List WatchEvent} {watching listed : Bool}
    (hcopies : ∀ m, ∀ copy ∈ State.copies { s with
      known := known, pending := pending, watching := watching, listed := listed } m,
        copy ∈ s.copies m) :
    Owned services nets { s with
      known := known, pending := pending, watching := watching, listed := listed } :=
  { h with apart := h.apart.mono (own_subset hcopies (fun _ _ h => h) fun _ h => h) subset_rfl }

omit [DecidableEq ω] in
/-- The copies after an event were there before, unless a tracked node is deleted. -/
theorem Owned.handle_kept {e : WatchEvent} {es : List WatchEvent}
    (hlisted : s.listed = true) (hpending : s.pending name = e :: es)
    (he : e.is_deleted = true → s.known name = none) :
    Owned services nets { s with
      pending := Function.update s.pending name es
      known := Function.update s.known name e.result } := by
  refine h.of_copies fun m copy hcopy => ?_
  rw [mem_state_copies] at hcopy ⊢
  dsimp only at hcopy
  by_cases hm : m = name
  · subst hm
    rw [hpending]
    refine hcopy.imp_right fun hcopy => ?_
    cases e with
    | deleted prev => simpa [he rfl, hlisted, WatchEvent.result, copies] using hcopy
    | added node | modified node =>
      have hcons : copy = node ∨ copy ∈ copies true es := by
        simpa [WatchEvent.result, eq_comm] using hcopy
      exact .inr (mem_cons.mpr hcons)
  · rw [update_of_ne hm, update_of_ne hm] at hcopy
    exact hcopy

/-- **A deletion** of a node that is tracked hands its blocks to the loop. -/
theorem Owned.handle_delete (htimelines : Timelines s)
    {prev : Node} {es : List WatchEvent} (hlisted : s.listed = true)
    (hpending : s.pending name = .deleted prev :: es) (htracked : (s.known name).isSome = true) :
    Owned services nets { s with
      pending := Function.update s.pending name es
      known := Function.update s.known name none
      releasing := [enumerate (node_pod_cidrs prev)] } := by
  have htimeline := htimelines.timeline name
  rw [hpending] at htimeline
  refine ⟨h.framed, ?_, h.blocks, h.worker_items, ?_, h.placed⟩
  · refine h.apart.regroup (fun _ i => if i = .node name prev.uid then .loop else i) ?_
    intro i t ht
    cases i with
    | worker w => exact ⟨.worker w, rfl, ht⟩
    | services => exact ⟨.services, rfl, ht⟩
    | loop =>
      refine ⟨.node name prev.uid, if_pos rfl, prev, ?_, rfl, ?_⟩
      · rw [mem_state_copies, hpending, htracked, Bool.or_true]
        exact Or.inr (Or.inr (.head _))
      · have hloop : t ∈ items_tokens nets [enumerate (node_pod_cidrs prev)].flatten := ht
        rw [flatten_singleton] at hloop
        exact items_tokens_enumerate_subset hloop
    | node m uid =>
      obtain ⟨copy, hcopy, huid, ht⟩ := ht
      rw [mem_state_copies] at hcopy
      dsimp only at hcopy
      by_cases hm : m = name
      · subst hm
        rw [update_self, update_self] at hcopy
        -- the incarnation has ended
        have hdead : copy.uid ≠ prev.uid := by
          rcases hcopy with hstored | hknown | hcopy
          · exact htimeline.dead_stored _ (.head _) rfl copy hstored
          · cases hknown
          · obtain ⟨e, he, rfl⟩ := mem_copies hcopy
            exact (pairwise_cons.mp htimeline.dead).1 e he rfl
        refine ⟨.node m uid, ?_, copy, ?_, huid, ht⟩
        · rw [if_neg]
          intro heq
          exact hdead (huid.trans (Owner.node.inj heq).2)
        · rw [mem_state_copies, hpending, htracked, Bool.or_true]
          rcases hcopy with hstored | hknown | hcopy
          · exact .inl hstored
          · cases hknown
          · refine .inr (.inr (mem_cons_of_mem _ ?_))
            simpa [hlisted] using hcopy
      · rw [update_of_ne hm, update_of_ne hm] at hcopy
        refine ⟨.node m uid, ?_, copy, mem_state_copies.mpr hcopy, huid, ht⟩
        rw [if_neg]
        intro heq
        exact hm (Owner.node.inj heq).1
  · rw [flatten_singleton]
    exact pairwise_of_nodup (nodup_enumerate _)

omit [DecidableEq ω] h in
theorem Timelines.gone (h : Timelines s) (hlisted : s.listed = false)
    {k copy : Node} (hknown : s.known name = some k)
    (hfirst : ∀ e, (s.pending name).head? = some e → e.is_deleted = true)
    (hcopy : copy ∈ copies false (s.pending name)) : copy.uid ≠ k.uid := by
  intro huid
  have htimeline := h.timeline name
  obtain ⟨e, he, hnode⟩ := mem_copies hcopy
  obtain ⟨e', hhead, huid'⟩ := htimeline.first hlisted k hknown e he (by rw [hnode, huid])
  have hdeleted := hfirst e' hhead
  cases hpending : s.pending name with
  | nil => rw [hpending] at he; nomatch he
  | cons d es =>
    rw [hpending] at hhead hcopy htimeline
    obtain rfl := Option.some.inj hhead
    -- the deletion comes first, and nothing of the incarnation follows
    cases d with
    | added _ | modified _ => exact Bool.false_ne_true hdeleted
    | deleted prev =>
      obtain ⟨e'', he'', hnode''⟩ := mem_copies (show copy ∈ copies false es from hcopy)
      refine (pairwise_cons.mp htimeline.dead).1 e'' he'' rfl ?_
      rw [hnode'', huid, huid']

omit [DecidableEq ω] in
/-- **A relist** hands the blocks of the nodes that are gone to the loop. -/
theorem Owned.relist (htimelines : Timelines s) {gone : List String}
    (hcareful : Careful s (.relist gone)) (hallowed : (Label.relist gone).allowed s)
    (hlisted : s.listed = false) :
    Owned services nets { s with
      known := s.stored
      listed := true
      releasing := gone.map fun name =>
        enumerate (((s.known name).map node_pod_cidrs).getD []) } := by
  obtain ⟨hnodup, hgone⟩ := hallowed
  -- the blocks of a node that is gone
  have hitems : ∀ name ∈ gone, ∃ k, s.known name = some k ∧
      items_tokens nets (enumerate (((s.known name).map node_pod_cidrs).getD [])) ⊆
        own services nets s (.node name k.uid) := by
    intro name hname
    obtain ⟨k, hk⟩ := Option.isSome_iff_exists.mp ((hgone name).mp hname).1
    refine ⟨k, hk, ?_⟩
    intro t ht
    rw [hk] at ht
    exact ⟨k, mem_state_copies.mpr (.inr (.inl hk)), rfl, items_tokens_enumerate_subset ht⟩
  refine ⟨h.framed, ?_, h.blocks, h.worker_items, ?_, h.placed⟩
  · refine h.apart.regroup (fun _ i => match i with
      | .node name uid => if name ∈ gone ∧ (s.known name).map Node.uid = some uid then .loop
          else .node name uid
      | i => i) ?_
    intro i t ht
    cases i with
    | worker w => exact ⟨.worker w, rfl, ht⟩
    | services => exact ⟨.services, rfl, ht⟩
    | loop =>
      obtain ⟨item, hitem, ht⟩ := ht
      obtain ⟨items, hmem, hitem⟩ := mem_flatten.mp hitem
      obtain ⟨name, hname, rfl⟩ := mem_map.mp hmem
      obtain ⟨k, hk, hsub⟩ := hitems name hname
      refine ⟨.node name k.uid, if_pos ⟨hname, by rw [hk]; rfl⟩, hsub ⟨item, hitem, ht⟩⟩
    | node m uid =>
      obtain ⟨copy, hcopy, rfl, ht⟩ := ht
      rw [mem_state_copies] at hcopy
      refine ⟨.node m copy.uid, if_neg ?_, copy, ?_, rfl, ht⟩
      · intro ⟨hm, hmap⟩
        obtain ⟨k, hk, huid⟩ := Option.map_eq_some_iff.mp hmap
        have hnone := ((hgone m).mp hm).2
        rcases hcopy with hstored | hstored | hcopy
        · nomatch hstored.symm.trans hnone
        · nomatch hstored.symm.trans hnone
        · have huntracked : copy ∈ copies false (s.pending m) := by simpa [hnone] using hcopy
          exact htimelines.gone hlisted hk (hcareful m hm) huntracked huid.symm
      · rw [mem_state_copies, hlisted]
        rcases hcopy with hstored | hstored | hcopy
        · exact .inl hstored
        · exact .inl hstored
        · refine .inr (.inr ?_)
          show copy ∈ copies true (s.pending m)
          cases htracked : (s.stored m).isSome with
          | true => simpa [htracked] using hcopy
          | false => exact copies_of_untracked (by simpa [htracked] using hcopy)
  · rw [pairwise_flatten]
    constructor
    · intro items hmem
      obtain ⟨name, -, rfl⟩ := mem_map.mp hmem
      exact pairwise_of_nodup (nodup_enumerate _)
    · rw [pairwise_map]
      refine hnodup.imp_of_mem ?_
      intro name name' hname hname' hne item hitem item' hitem'
      obtain ⟨k, -, hsub⟩ := hitems name hname
      obtain ⟨k', -, hsub'⟩ := hitems name' hname'
      have howners : (Owner.node name k.uid : Owner ω) ≠ .node name' k'.uid :=
        fun heq => hne (Owner.node.inj heq).1
      exact (h.apart.disjoint _ _ howners).mono (fun t ht => hsub ⟨item, hitem, ht⟩)
        (fun t ht => hsub' ⟨item', hitem', ht⟩)

omit [DecidableEq ω] in
theorem Owned.create : Owned services nets { s.write name (some { name := name, uid := s.issued })
    (.added { name := name, uid := s.issued }) with issued := s.issued + 1 } := by
  have hcidrs : ∀ c, c ∉ node_pod_cidrs { name := name, uid := s.issued } :=
    fun _ => not_mem_nil
  have hwrite : Owned services nets (s.write name (some { name := name, uid := s.issued })
      (.added { name := name, uid := s.issued })) := h.write (.added _)
    (fun t ⟨c, hc, _⟩ => absurd hc (hcidrs c))
    (fun node hnode => (Option.some.inj hnode) ▸
      ⟨fun c hc => absurd hc (hcidrs c), fun c hc => absurd hc (hcidrs c)⟩)
  exact { hwrite with }

/-- **An allocation** gives the worker a block that nobody had. -/
theorem Owned.allocate {w : ω} {allocated : List IpNet} {set set' : CidrSet} {cidr : IpNet}
    (hphase : s.worker w = .allocating name allocated)
    (hset : s.sets[allocated.length]? = some set) (hok : set.allocate_next = .ok (cidr, set')) :
    Owned services nets { s.go w (.allocating name (allocated ++ [cidr])) with
      sets := s.sets.set allocated.length set' } := by
  obtain ⟨hframed, hlive, hnew, b, hb, rfl⟩ := allocate_spec h.framed hset hok
  have hitems : (s.worker w).items = enumerate allocated := by rw [hphase]; rfl
  have hnext : (Phase.allocating name (allocated ++ [set.index_to_cidr_block b])).items =
      (s.worker w).items ++ [(allocated.length, set.index_to_cidr_block b)] := by
    rw [hitems]
    simp [Phase.items, enumerate, zipIdx_append]
  have hworker : WorkerItems nets
      (Phase.allocating name (allocated ++ [set.index_to_cidr_block b])).items := by
    refine ⟨?_, nodup_enumerate _⟩
    intro item hitem
    rw [hnext] at hitem
    rcases mem_append.mp hitem with hold | hlast
    · exact h.blocks w item hold
    · rw [mem_singleton.mp hlast]
      exact ⟨set.blank, b, h.framed.net hset, hb, rfl⟩
  refine h.go hframed hworker (h.apart.earn (i := .worker w) hnew (by rw [hlive]) ?_ ?_)
  · intro i hi
    cases i with
    | worker v =>
      have hv : v ≠ w := fun heq => hi (by rw [heq])
      show items_tokens nets (update s.worker w _ v).items ⊆ _
      rw [update_of_ne hv]
      exact subset_rfl
    | node m uid | loop | services => exact subset_rfl
  · show items_tokens nets (update s.worker w _ w).items ⊆ _
    rw [update_self, hnext]
    intro t ⟨item, hitem, ht⟩
    rcases mem_append.mp hitem with hold | hlast
    · exact .inl ⟨item, hold, ht⟩
    · exact .inr (mem_singleton.mp hlast ▸ ht)

theorem Owned.release {w : ω} {item : Item} {rest : List Item}
    (hphase : s.worker w = .releasing (item :: rest)) :
    Owned services nets { s.go w (.releasing rest) with
      sets := (release_cidr s.sets item).getD s.sets } := by
  have hitems : (s.worker w).items = item :: rest := by rw [hphase]; rfl
  have hsub : rest.Sublist (s.worker w).items := hitems ▸ sublist_cons_self item rest
  have hown : ∀ i, own services nets (s.go w (.releasing rest)) i ⊆ own services nets s i :=
    own_go hsub.subset
  have hworker := (h.items w).sublist hsub
  cases hsets : release_cidr s.sets item with
  | none => exact h.go h.framed hworker (h.apart.mono hown subset_rfl)
  | some sets =>
    obtain ⟨hframed, hlive⟩ := release_cidr_spec h.framed hsets
    refine h.go hframed hworker (h.apart.spend (i := .worker w) ?_ hlive.symm.subset hown ?_)
    · intro t ht
      exact ⟨item, hitems ▸ .head _, ht⟩
    · show Disjoint (items_tokens nets (update s.worker w _ w).items) _
      rw [update_self]
      have hnodup := h.worker_items w
      rw [hitems] at hnodup
      exact disjoint_items_tokens (pairwise_cons.mp (pairwise_of_nodup hnodup)).1

theorem Owned.handle (htimelines : Timelines s) {e : WatchEvent} {es : List WatchEvent}
    (hlisted : s.listed = true) (hpending : s.pending name = e :: es) :
    Owned services nets ({ s with pending := Function.update s.pending name es }.handle name e) := by
  cases e with
  | added node | modified node =>
    exact h.handle_kept hlisted hpending (by simp [WatchEvent.is_deleted])
  | deleted prev =>
    unfold State.handle
    cases hknown : s.known name with
    | some k => exact h.handle_delete htimelines hlisted hpending (by rw [hknown]; rfl)
    | none =>
      -- the event of a node that is not tracked is dropped
      have hkept := h.handle_kept hlisted hpending fun _ => hknown
      rwa [WatchEvent.result, ← hknown, update_eq_self] at hkept

omit [DecidableEq ω] in
theorem Owned.own_rest (items : List Item) {others : List (List Item)}
    (hflatten : s.releasing.flatten = items ++ others.flatten) :
    (∀ i, own services nets { s with releasing := others } i ⊆ own services nets s i) ∧
      others.flatten.Pairwise fun a b => Disjoint (item_tokens nets a) (item_tokens nets b) := by
  have hpairwise := h.loop_items
  rw [hflatten] at hpairwise
  refine ⟨own_subset ?_ ?_ ?_, (pairwise_append.mp hpairwise).2.1⟩
  · exact fun _ _ h => h
  · exact fun _ _ h => h
  · rw [hflatten]
    exact fun item hitem => mem_append_right _ hitem

omit h in
/-- **Every step** that the code gets right keeps the blocks apart. -/
theorem Turn.owned (hfamilies : (nets.map fun set => set.cluster.family).Nodup)
    (hturn : Turn s l s') (hcareful : Careful s l) (hallowed : l.allowed s)
    (htimelines : Timelines s) (h : Owned services nets s) : Owned services nets s' := by
  cases hturn with
  | creates hnone => exact h.create
  | deletes hnode =>
    refine h.write (.deleted _) (own_stored hnode) ?_
    intro node hnode
    cases hnode
  | changes deleting hnode =>
    rename_i name node
    refine h.write (.modified _) (fun _ ht => own_stored hnode ht) ?_
    intro changed hchanged
    cases hchanged
    exact { h.placed name node hnode with }
  | goes l w phase hitems =>
    have hsub : phase.items.Sublist (s.worker w).items := by
      rcases hitems with hnil | heq
      · rw [hnil]
        exact nil_sublist _
      · rw [heq]
    exact h.go h.framed ((h.items w).sublist hsub) (h.apart.mono (own_go hsub.subset) subset_rfl)
  | occupies w hsets =>
    obtain ⟨hframed, hlive⟩ := occupy_cidr_spec h.framed hsets
    refine h.go hframed ((h.items w).sublist (nil_sublist _))
      (h.apart.mono (own_go (nil_subset _)) ?_)
    rw [hlive]
    exact subset_union_left
  | allocates hphase hset hok => exact h.allocate hphase hset hok
  | patches _ _ hphase hnode hend =>
    refine h.patch hfamilies (by rw [hphase]; rfl) hnode ?_
    rcases hend with hnil | ⟨rfl, hleft⟩
    · exact hnil
    · exact absurd (hcareful _ _ _ hphase) hleft
  | releases hphase => exact h.release hphase
  | watches =>
    refine h.of_copies fun m copy hcopy => ?_
    rw [mem_state_copies] at hcopy ⊢
    exact hcopy.imp_right fun hcopy => hcopy.imp_right fun hcopy => absurd hcopy not_mem_nil
  | relists _ hlisted => exact h.relist htimelines hcareful hallowed hlisted
  | handles hlisted _ hpending => exact h.handle htimelines hlisted hpending
  | releases_gone hreleasing hsets =>
    rename_i item rest others sets
    obtain ⟨hframed, hlive⟩ := release_cidr_spec h.framed hsets
    have hitems : s.releasing.flatten = item :: (rest :: others).flatten := by
      rw [hreleasing]
      rfl
    have hpairwise := h.loop_items
    rw [hitems] at hpairwise
    obtain ⟨hown, hrest⟩ := h.own_rest [item] hitems
    refine { h with framed := hframed, apart := ?_, loop_items := hrest }
    refine h.apart.spend (i := .loop) ?_ (by rw [hlive]) hown ?_
    · intro t ht
      exact ⟨item, hitems ▸ .head _, ht⟩
    · exact disjoint_items_tokens (pairwise_cons.mp hpairwise).1
  | skips hreleasing =>
    obtain ⟨hown, hrest⟩ := h.own_rest _ (by rw [hreleasing]; rfl)
    exact { h with apart := h.apart.mono hown subset_rfl, loop_items := hrest }

end NodeIpam
