import Rusternetes.Framework.Table
import Rusternetes.Scheduler.Events

/-! # The Nominator

    `crates/scheduler/src/queue/nominator.rs`: which pods are nominated to run
    on which nodes, kept in two maps, by node and by pod. The two stay inverse whatever is
    called with whatever pods.
-/

open Framework

namespace Scheduler

inductive NominatingMode where
  | Noop
  | Override
  deriving DecidableEq

structure NominatingInfo where
  nominated_node_name : String
  nominating_mode : NominatingMode

def NominatingInfo.mode (info : Option NominatingInfo) : NominatingMode :=
  match info with
  | some i => i.nominating_mode
  | none => .Noop

structure PodRef where
  name : String
  ns : String
  uid : String
  deriving DecidableEq

def PodRef.from_pod (pod : Pod) : PodRef :=
  ⟨pod.name, pod.ns.getD "", pod.uid⟩

/-- `PodLister`: the pod of that namespace and name, if it is in the cache. -/
abbrev PodLister := String → String → Option Pod

structure Nominator where
  pod_lister : Option PodLister
  /-- Node name to the pods nominated to run on it. -/
  nominated_pods : AList (fun _ : String => List PodRef)
  /-- Pod UID to the node it is nominated for. -/
  nominated_pod_to_node : AList (fun _ : String => String)

def nominated_node_name (pod : Pod) : String := pod.nominated_node_name.getD ""

namespace Nominator

def new (pod_lister : Option PodLister) : Nominator := ⟨pod_lister, ∅, ∅⟩

def delete (n : Nominator) (pod : Pod) : Nominator :=
  match n.nominated_pod_to_node.lookup pod.uid with
  | none => n
  | some nnn =>
    let nominated_pods :=
      match n.nominated_pods.lookup nnn with
      | none => n.nominated_pods
      | some list =>
        let list := list.eraseP fun np => np.uid == pod.uid
        if list.isEmpty then n.nominated_pods.erase nnn else n.nominated_pods.insert nnn list
    { n with
      nominated_pods := nominated_pods
      nominated_pod_to_node := n.nominated_pod_to_node.erase pod.uid }

/-- The pod is still there and not bound, as far as the lister knows. -/
def alive (n : Nominator) (pod : Pod) : Bool :=
  match n.pod_lister with
  | none => true
  | some lister =>
    match lister (pod.ns.getD "") pod.name with
    | none => false
    | some updated => updated.node_name.getD "" == ""

def add_nominated_pod (n : Nominator) (pod : Pod) (nominating_info : Option NominatingInfo) :
    Nominator :=
  let n := n.delete pod
  let node_name : Option String :=
    match NominatingInfo.mode nominating_info with
    | .Override => some ((nominating_info.map (·.nominated_node_name)).getD "")
    | .Noop => if Scheduler.nominated_node_name pod == "" then none
        else some (Scheduler.nominated_node_name pod)
  match node_name with
  | none => n
  | some node_name =>
    if n.alive pod then
      let list := (n.nominated_pods.lookup node_name).getD []
      let list :=
        if list.any (fun np => np.uid == pod.uid) then list else list ++ [PodRef.from_pod pod]
      { n with
        nominated_pods := n.nominated_pods.insert node_name list
        nominated_pod_to_node := n.nominated_pod_to_node.insert pod.uid node_name }
    else n

def update_nominated_pod (n : Nominator) (old_pod new_pod : Pod) : Nominator :=
  let nominating_info : Option NominatingInfo :=
    if Scheduler.nominated_node_name old_pod == "" && Scheduler.nominated_node_name new_pod == ""
    then (n.nominated_pod_to_node.lookup old_pod.uid).map fun nnn => ⟨nnn, .Override⟩
    else none
  (n.delete old_pod).add_nominated_pod new_pod nominating_info

def nominated_pods_for_node (n : Nominator) (node_name : String) : List PodRef :=
  (n.nominated_pods.lookup node_name).getD []

/-! ### The two maps -/

variable {n : Nominator}

/-- A pod is once in the list of its node and in no other list, and no list is empty. -/
structure Inverse (n : Nominator) : Prop where
  once : ∀ m uid, (n.nominated_pods_for_node m).countP (·.uid == uid) =
    if n.nominated_pod_to_node.lookup uid = some m then 1 else 0
  nonempty : ∀ m, n.nominated_pods.lookup m ≠ some []

theorem lookup_delete (pod : Pod) (uid : String) :
    (n.delete pod).nominated_pod_to_node.lookup uid =
      if uid = pod.uid then none else n.nominated_pod_to_node.lookup uid := by
  unfold delete
  cases hn : n.nominated_pod_to_node.lookup pod.uid with
  | none =>
    split_ifs with huid
    · exact huid ▸ hn
    · rfl
  | some nnn => exact Table.lookup_erase_ite _ _ _

/-- Removing the only reference to a pod keeps those to the others. -/
theorem countP_eraseP {list : List PodRef} {uid : String}
    (h : list.countP (·.uid == uid) = 1) (uid' : String) :
    (list.eraseP fun np => np.uid == uid).countP (·.uid == uid') =
      if uid' = uid then 0 else list.countP (·.uid == uid') := by
  obtain ⟨np, hnp, huid⟩ := List.countP_pos_iff.mp (h ▸ Nat.one_pos)
  obtain ⟨a, l₁, l₂, -, ha, heq, herase⟩ :=
    List.exists_of_eraseP (p := fun np => np.uid == uid) hnp huid
  rw [heq, List.countP_append, List.countP_cons, if_pos ha] at h
  rw [herase, heq, List.countP_append, List.countP_append, List.countP_cons]
  split_ifs with hu hau
  · subst hu
    omega
  · exact absurd ((beq_iff_eq.mp hau).symm.trans (beq_iff_eq.mp ha)) hu
  · rfl

theorem lookup_put (pods : Table String (List PodRef)) (m m' : String) (list : List PodRef) :
    (if list.isEmpty then pods.erase m else pods.insert m list).lookup m' =
      if m' = m then (if list = [] then none else some list) else pods.lookup m' := by
  cases list with
  | nil => exact pods.lookup_erase_ite m m'
  | cons => exact pods.lookup_insert_ite m _ m'

theorem Inverse.delete (h : n.Inverse) (pod : Pod) : (n.delete pod).Inverse := by
  have hto := n.lookup_delete pod
  unfold Nominator.delete at hto ⊢
  cases hn : n.nominated_pod_to_node.lookup pod.uid with
  | none => exact h
  | some nnn =>
    have hone := h.once nnn pod.uid
    rw [if_pos hn, nominated_pods_for_node] at hone
    cases hl : n.nominated_pods.lookup nnn with
    | none => simp [hl] at hone
    | some list =>
      rw [hl, Option.getD_some] at hone
      simp only [hn, hl] at hto ⊢
      constructor
      · intro m uid
        have hcount := h.once m uid
        rw [hto, nominated_pods_for_node, lookup_put]
        by_cases hm : m = nnn
        · have hget : ∀ l : List PodRef, (if l = [] then none else some l).getD [] = l := by
            intro l
            split_ifs with hnil
            · exact hnil.symm
            · rfl
          rw [hm, nominated_pods_for_node, hl] at hcount
          rw [if_pos hm, hget, countP_eraseP hone, hm]
          by_cases huid : uid = pod.uid
          · simp [huid]
          · rw [if_neg huid, if_neg huid]
            exact hcount
        · rw [if_neg hm]
          refine hcount.trans ?_
          by_cases huid : uid = pod.uid
          · rw [huid, hn]
            simp [Ne.symm hm]
          · rw [if_neg huid]
      · intro m
        rw [lookup_put]
        split_ifs with hm hnil
        · simp
        · simpa using hnil
        · exact h.nonempty m

theorem Inverse.put (h : n.Inverse) {pod : Pod} (m : String)
    (hgone : n.nominated_pod_to_node.lookup pod.uid = none) :
    Inverse { n with
      nominated_pods := n.nominated_pods.insert m
        (n.nominated_pods_for_node m ++ [PodRef.from_pod pod])
      nominated_pod_to_node := n.nominated_pod_to_node.insert pod.uid m } := by
  constructor
  · intro m' uid
    have hcount := h.once m' uid
    unfold nominated_pods_for_node at hcount ⊢
    rw [Table.lookup_insert_ite, Table.lookup_insert_ite]
    by_cases huid : uid = pod.uid
    · rw [huid, hgone] at hcount
      by_cases hm : m' = m
      · subst hm
        simp [huid, PodRef.from_pod, hcount]
      · simpa [huid, hm, Ne.symm hm] using hcount
    · rw [if_neg huid]
      by_cases hm : m' = m
      · subst hm
        simpa [PodRef.from_pod, Ne.symm huid] using hcount
      · simpa [hm] using hcount
  · intro m'
    rw [Table.lookup_insert_ite]
    split_ifs
    · simp
    · exact h.nonempty m'

theorem Inverse.add (h : n.Inverse) (pod : Pod) (info : Option NominatingInfo) :
    (n.add_nominated_pod pod info).Inverse := by
  have hd := h.delete pod
  have hgone := n.lookup_delete pod pod.uid
  rw [if_pos rfl] at hgone
  unfold add_nominated_pod
  generalize n.delete pod = n at hd hgone
  dsimp only
  split
  · exact hd
  · rename_i m _
    split_ifs with halive hany
    · -- the deletion left no reference to the pod
      have hzero := hd.once m pod.uid
      rw [hgone] at hzero
      obtain ⟨np, hnp, huid⟩ := List.any_eq_true.mp hany
      exact absurd huid (List.countP_eq_zero.mp hzero np hnp)
    · exact hd.put m hgone
    · exact hd

theorem alive_delete (pod pod' : Pod) : (n.delete pod).alive pod' = n.alive pod' := by
  unfold delete
  split
  · rfl
  · rfl

theorem lookup_update {old_pod new_pod : Pod} (hold : Scheduler.nominated_node_name old_pod = "")
    (hnew : Scheduler.nominated_node_name new_pod = "") (halive : n.alive new_pod = true) :
    (n.update_nominated_pod old_pod new_pod).nominated_pod_to_node.lookup new_pod.uid =
      n.nominated_pod_to_node.lookup old_pod.uid := by
  unfold update_nominated_pod add_nominated_pod
  cases hn : n.nominated_pod_to_node.lookup old_pod.uid with
  | none =>
    simp [hold, hnew, NominatingInfo.mode, lookup_delete]
  | some m =>
    simp [hold, hnew, NominatingInfo.mode, alive_delete, halive]

/-- What the scheduling queue calls. -/
inductive Call where
  | add_nominated_pod (pod : Pod) (nominating_info : Option NominatingInfo)
  | update_nominated_pod (old_pod new_pod : Pod)
  | delete (pod : Pod)

def call (n : Nominator) (pod_lister : Option PodLister) (c : Call) : Nominator :=
  let n := { n with pod_lister }
  match c with
  | .add_nominated_pod pod info => n.add_nominated_pod pod info
  | .update_nominated_pod old_pod new_pod => n.update_nominated_pod old_pod new_pod
  | .delete pod => n.delete pod

def calls (n : Nominator) : List (Option PodLister × Call) → Nominator
  | [] => n
  | c :: cs => (n.call c.1 c.2).calls cs

theorem Inverse.call (h : n.Inverse) (pod_lister : Option PodLister) (c : Call) :
    (n.call pod_lister c).Inverse := by
  have h : Inverse { n with pod_lister } := ⟨h.once, h.nonempty⟩
  cases c with
  | add_nominated_pod pod info => exact h.add pod info
  | update_nominated_pod old_pod new_pod => exact (h.delete old_pod).add new_pod _
  | delete pod => exact h.delete pod

theorem Inverse.calls (h : n.Inverse) (cs : List (Option PodLister × Call)) :
    (n.calls cs).Inverse := by
  induction cs generalizing n with
  | nil => exact h
  | cons c cs ih => exact ih (h.call c.1 c.2)

/-- **The two maps are inverse** after any calls: a pod is nominated for a node exactly if the
    node lists it, which it does once; no pod is listed twice, no list is empty, and an update
    that names no node keeps the nomination. -/
theorem nominations_inverse (pod_lister : Option PodLister)
    (cs : List (Option PodLister × Call)) :
    let n := (new pod_lister).calls cs
    (∀ uid m, n.nominated_pod_to_node.lookup uid = some m ↔
      (n.nominated_pods_for_node m).countP (·.uid == uid) = 1) ∧
    (∀ m m', ∀ np ∈ n.nominated_pods_for_node m, ∀ np' ∈ n.nominated_pods_for_node m',
      np.uid = np'.uid → m = m') ∧
    (∀ m, n.nominated_pods.lookup m ≠ some []) ∧
    ∀ pod_lister old_pod new_pod, Scheduler.nominated_node_name old_pod = "" →
      Scheduler.nominated_node_name new_pod = "" →
      alive { n with pod_lister } new_pod = true →
      (n.call pod_lister (.update_nominated_pod old_pod new_pod)).nominated_pod_to_node.lookup
        new_pod.uid = n.nominated_pod_to_node.lookup old_pod.uid := by
  intro n
  have h : n.Inverse := by
    apply Inverse.calls
    constructor
    · intro m uid
      rfl
    · intro m hm
      cases hm
  refine ⟨fun uid m => ?_, fun m m' np hnp np' hnp' huid => ?_, h.nonempty, ?_⟩
  · rw [h.once]
    split_ifs with hm
    · exact iff_of_true hm rfl
    · exact iff_of_false hm id
  · have hmem : ∀ {m np}, np ∈ n.nominated_pods_for_node m →
        n.nominated_pod_to_node.lookup np.uid = some m := by
      intro m np hnp
      by_contra hm
      have hzero := h.once m np.uid
      rw [if_neg hm] at hzero
      exact List.countP_eq_zero.mp hzero np hnp (beq_self_eq_true _)
    exact Option.some.inj ((hmem hnp).symm.trans (huid ▸ hmem hnp'))
  · intro pod_lister old_pod new_pod hold hnew halive
    exact lookup_update hold hnew halive

/-- A pod that was nominated for a node, without one in its status. -/
def waiting : Pod :=
  ⟨none, "p", "u", none, none, none, none, none, none, none, none, none, ∅⟩

theorem nominations_inverse_kept :
    let n := (new none).calls [(none, .add_nominated_pod waiting (some ⟨"m", .Override⟩))]
    (n.call none (.update_nominated_pod waiting waiting)).nominated_pod_to_node.lookup "u" =
      some "m" := by
  intro n
  exact ((nominations_inverse none _).2.2.2 none waiting waiting rfl rfl rfl).trans (by decide)

end Nominator

end Scheduler
