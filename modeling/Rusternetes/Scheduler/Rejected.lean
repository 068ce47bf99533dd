import Rusternetes.Scheduler.InFlight

/-! # The Scheduling Queue: Rejected Pods

    A pod that was rejected is parked in `unschedulable_pods` only if no event since it was
    popped may help it. Two loops look for the strongest answer, each with early returns:
    over the hint functions registered for an event, and over the events. Both are
    `strongest` of a list of answers, and what they find does not depend on its order.
-/

open LTS List

namespace Scheduler

variable {Obj : Type}

/-! ### The strongest of several answers -/

/-- Both loops: stop at `QueueImmediately`, and where it cannot follow (`last`) at
    `QueueAfterBackoff`. -/
def strongest (last : Prop) [Decidable last] :
    List QueueingStrategy → QueueingStrategy → QueueingStrategy
  | [], found => found
  | .QueueSkip :: rest, found => strongest last rest found
  | .QueueImmediately :: _, _ => .QueueImmediately
  | .QueueAfterBackoff :: rest, _ =>
    if last then .QueueAfterBackoff else strongest last rest .QueueAfterBackoff

theorem strongest_eq {last : Prop} [Decidable last] {answers : List QueueingStrategy}
    (hlast : last → .QueueImmediately ∉ answers) (found : QueueingStrategy) :
    strongest last answers found =
      if .QueueImmediately ∈ answers then .QueueImmediately
      else if .QueueAfterBackoff ∈ answers then .QueueAfterBackoff else found := by
  induction answers generalizing found with
  | nil => rfl
  | cons a rest ih =>
    have ih := ih fun hl hmem => hlast hl (.tail _ hmem)
    cases a with
    | QueueSkip => simp [strongest, ih]
    | QueueImmediately => simp [strongest]
    | QueueAfterBackoff =>
      by_cases hl : last
      · have hrest := hlast hl
        simp [strongest, hl, hrest]
      · rw [strongest, if_neg hl, ih]
        simp

/-! ### The hints for one event -/

section hints

variable {p_info : QueuedPodInfo} {old_obj new_obj : Option (EventObject Obj)}

def verdict (p_info : QueuedPodInfo) (old_obj new_obj : Option (EventObject Obj))
    (hintfn : QueueingHintFunction Obj) : QueueingStrategy :=
  if hintfn.plugin_name ∉ p_info.rejector_plugins then .QueueSkip
  else
    match hintfn.queueing_hint_fn p_info.pod old_obj new_obj with
    | .ok .QueueSkip => .QueueSkip
    | _ => if hintfn.plugin_name ∈ p_info.pending_plugins then .QueueImmediately
      else .QueueAfterBackoff

theorem hint_loop_eq (hintfns : List (QueueingHintFunction Obj)) (found : QueueingStrategy) :
    PriorityQueue.hint_loop p_info old_obj new_obj hintfns found =
      strongest (p_info.pending_plugins = ∅) (hintfns.map (verdict p_info old_obj new_obj))
        found := by
  induction hintfns generalizing found with
  | nil => rfl
  | cons f rest ih =>
    rw [PriorityQueue.hint_loop, map_cons, verdict]
    by_cases hrejector : f.plugin_name ∉ p_info.rejector_plugins
    · rw [if_pos hrejector, if_pos hrejector, ih, strongest]
    · rw [if_neg hrejector, if_neg hrejector]
      rcases f.queueing_hint_fn p_info.pod old_obj new_obj with _ | _ | _ <;>
        by_cases hpending : f.plugin_name ∈ p_info.pending_plugins <;>
        simp [hpending, strongest, ih]

theorem immediately_not_mem (hnone : p_info.pending_plugins = ∅)
    (hintfns : List (QueueingHintFunction Obj)) :
    .QueueImmediately ∉ hintfns.map (verdict p_info old_obj new_obj) := by
  simp only [mem_map, not_exists, not_and]
  intro f _
  simp only [verdict, hnone, Finset.notMem_empty, if_false]
  split_ifs <;> try split
  all_goals simp

/-- Two queues with the same hint functions for each event, perhaps listed in another
    order. -/
def SameHints (q q' : PriorityQueue Obj) : Prop :=
  ∀ profile, Option.Rel (fun m m' => m.entries.Perm m'.entries)
    (q.queueing_hint_map.lookup profile) (q'.queueing_hint_map.lookup profile)

theorem is_pod_worth_requeuing_same {q q' : PriorityQueue Obj} (h : SameHints q q')
    (event : ClusterEvent) :
    q'.is_pod_worth_requeuing p_info event old_obj new_obj =
      q.is_pod_worth_requeuing p_info event old_obj new_obj := by
  have hprofile := h (pod_scheduler_name p_info.pod)
  unfold PriorityQueue.is_pod_worth_requeuing
  generalize q.queueing_hint_map.lookup _ = hints at hprofile
  generalize q'.queueing_hint_map.lookup _ = hints' at hprofile
  cases hprofile with
  | none => rfl
  | some hperm =>
    have hmem := fun a => (((hperm.filter fun e => match_cluster_events e.1 event).flatMap_right
      (·.2)).map (verdict p_info old_obj new_obj)).mem_iff (a := a)
    simp only [hint_loop_eq, strongest_eq fun hnone => immediately_not_mem hnone _, hmem]

theorem worth_immediately_pending {q : PriorityQueue Obj} {event : ClusterEvent}
    (h : q.is_pod_worth_requeuing p_info event old_obj new_obj = .QueueImmediately) :
    p_info.pending_plugins ≠ ∅ := by
  intro hnone
  unfold PriorityQueue.is_pod_worth_requeuing at h
  split_ifs at h
  · split at h
    · split_ifs at h
    · cases h
    · cases h
  · split at h
    · cases h
    · rw [hint_loop_eq, strongest_eq fun hnone => immediately_not_mem hnone _,
        if_neg (immediately_not_mem hnone _)] at h
      split_ifs at h

end hints

/-! ### The events since the pod was popped -/

variable {q q' : PriorityQueue Obj} {inner inner' : Inner q} {p_info : QueuedPodInfo}

abbrev worth (q : PriorityQueue Obj) (p_info : QueuedPodInfo) (e : InFlightEvent Obj) :
    QueueingStrategy :=
  q.is_pod_worth_requeuing p_info e.event e.old_obj e.new_obj

theorem hint_of_events_eq (events : List (InFlightEvent Obj)) :
    Inner.hint_of_events q p_info events .QueueSkip =
      if .QueueImmediately ∈ events.map (worth q p_info) then .QueueImmediately
      else if .QueueAfterBackoff ∈ events.map (worth q p_info) then .QueueAfterBackoff
      else .QueueSkip := by
  have hloop : ∀ found, Inner.hint_of_events q p_info events found =
      strongest (p_info.pending_plugins = ∅) (events.map (worth q p_info)) found := by
    induction events with
    | nil => exact fun _ => rfl
    | cons e rest ih =>
      intro found
      rw [Inner.hint_of_events, map_cons]
      cases hworth : worth q p_info e <;> simp only [worth] at hworth <;>
        simp only [hworth, strongest, ih]
  rw [hloop, strongest_eq]
  intro hnone hmem
  obtain ⟨e, _, he⟩ := mem_map.mp hmem
  exact worth_immediately_pending he hnone

/-! ### Where the pod goes -/

theorem requeue_gated {strategy : QueueingStrategy} (hstrategy : strategy ≠ .QueueSkip)
    (hnone : inner.unschedulable_pods.get p_info.pod = none) (event : String) (now : SystemTime)
    {parked : QueuedPodInfo} (h : (inner.requeue_pod_with_queueing_strategy p_info strategy event
      now).1.unschedulable_pods.get p_info.pod = some parked) : parked.gated = true := by
  have hpod := (run_pre_enqueue_plugins_spec (q := q) p_info).1
  -- nothing changes in the pool, the pod is parked as it was found, or it leaves the pool
  have hmoved : ∀ pool : UnschedulablePods, pool = inner.unschedulable_pods ∨
      ((q.run_pre_enqueue_plugins p_info).gated = true ∧
        pool = inner.unschedulable_pods.add_or_update (q.run_pre_enqueue_plugins p_info)) ∨
      pool = inner.unschedulable_pods.delete (q.run_pre_enqueue_plugins p_info).pod →
      pool.get p_info.pod = some parked → parked.gated = true := by
    rw [← hpod] at hnone ⊢
    rintro pool (rfl | ⟨hgated, rfl⟩ | rfl) hget
    · nomatch hnone.symm.trans hget
    · rw [← Option.some.inj ((AList.lookup_insert _).symm.trans hget)]
      exact hgated
    · nomatch (AList.lookup_erase _ _).symm.trans hget
  refine hmoved _ ?_ h
  unfold Inner.requeue_pod_with_queueing_strategy
  rw [if_neg hstrategy]
  split_ifs
  · unfold Inner.move_to_backoff_q
    simp only
    split_ifs with hgated
    · exact .inr (.inl ⟨hgated, rfl⟩)
    · exact .inl rfl
    · exact .inr (.inr rfl)
  · unfold Inner.move_to_active_q
    simp only [Bool.false_eq_true, if_false]
    split_ifs with hgated
    · exact .inl rfl
    · exact .inr (.inl ⟨hgated, rfl⟩)
    all_goals exact .inr (.inr rfl)

/-- **A rejected pod is parked only if no event helps it.** In every run, for a pod that
    was rejected, whatever was recorded since it was popped and in whatever order (`q'`)
    the hint map is read: if it is parked, then it is gated or every event is one to skip;
    and if it is in flight, some event asks to queue it at once and it passes PreEnqueue,
    then it is in activeQ and not in backoff. -/
theorem parked_only_if_no_event_helps (q q' : PriorityQueue Obj) (hsame : SameHints q q')
    (inner : Inner q) (log : List (LogEntry Obj)) (h : Reachable (observed q) (inner, log))
    (p_info : QueuedPodInfo) (hrejected : p_info.rejector_plugins ≠ ∅) (now : SystemTime)
    (inner' : Inner q)
    (hok : inner.add_unschedulable_if_not_present p_info now = (inner', .ok ())) :
    (∀ parked, inner'.unschedulable_pods.get p_info.pod = some parked →
      parked.gated = true ∨ ∀ e ∈ since p_info.pod.uid log, worth q' p_info e = .QueueSkip) ∧
    (p_info.pod.uid ∈ inner.in_flight_pods →
      (∃ e ∈ since p_info.pod.uid log, worth q' p_info e = .QueueImmediately) →
      Passes q p_info.pod →
      inner'.active_q.has p_info = true ∧ inner'.backoff_q.has p_info = false) := by
  have hworth : worth q' p_info = worth q (Inner.refresh p_info now) := by
    funext e
    refine (is_pod_worth_requeuing_same hsame e.event).trans ?_
    -- what rejected the pod and the pod itself are all that counts
    unfold worth PriorityQueue.is_pod_worth_requeuing
    simp only [hint_loop_eq]
    rfl
  rw [hworth]
  rcases add_unschedulable_cases inner p_info now with ⟨e, heq⟩ | ⟨hnone, hpre, heq⟩
  · nomatch congrArg Prod.snd (heq.symm.trans hok)
  cases heq.symm.trans hok
  have hpool : ∀ r : Inner q, (r.unlocked_done p_info.pod.uid).unschedulable_pods =
      r.unschedulable_pods := by
    intro r
    unfold Inner.unlocked_done
    split <;> rfl
  have hhint : inner.determine_scheduling_hint_for_in_flight_pod (Inner.refresh p_info now) =
      if p_info.pod.uid ∈ inner.in_flight_pods then Inner.hint_of_events q
        (Inner.refresh p_info now) (since p_info.pod.uid log) .QueueSkip
      else .QueueAfterBackoff := by
    unfold Inner.determine_scheduling_hint_for_in_flight_pod
    rw [if_neg (show (Inner.refresh p_info now).rejector_plugins ≠ ∅ from hrejected)]
    split_ifs with hin
    · rw [(reachable_tracks h).cluster_events_for_pod
        (show (Inner.refresh p_info now).pod.uid ∈ inner.in_flight_pods from hin)]
      rfl
    · rw [Inner.cluster_events_for_pod,
        show inner.in_flight_pods.lookup (Inner.refresh p_info now).pod.uid = none from
          AList.lookup_eq_none.mpr hin]
  rw [hint_of_events_eq] at hhint
  refine ⟨fun parked hparked => ?_, ?_⟩
  · rw [hpool] at hparked
    by_cases hskip : inner.determine_scheduling_hint_for_in_flight_pod (Inner.refresh p_info now) =
        .QueueSkip
    · -- no event asks for more
      rw [hhint] at hskip
      split_ifs at hskip with hin himmediately hbackoff
      right
      intro e he
      have hmem := mem_map_of_mem (f := worth q (Inner.refresh p_info now)) he
      cases hw : worth q (Inner.refresh p_info now) e with
      | QueueSkip => rfl
      | QueueImmediately => exact absurd (hw ▸ hmem) himmediately
      | QueueAfterBackoff => exact absurd (hw ▸ hmem) hbackoff
    · refine .inl (requeue_gated hskip ?_ _ now hparked)
      exact hnone
  · rintro hin ⟨e, he, himmediately⟩ hpasses
    rw [if_pos hin, if_pos (mem_map.mpr ⟨e, he, himmediately⟩)] at hhint
    rw [hhint]
    have hpass : (q.run_pre_enqueue_plugins (Inner.refresh p_info now)).gated = false := by
      rw [← Bool.not_eq_true]
      exact fun hgated => (run_pre_enqueue_plugins_spec _).2 hgated hpasses
    have hplaces := move_to_active_q_places inner (Inner.refresh p_info now)
      (fun hboth => absurd (hpre.2.1.symm.trans hboth.1) (by simp)) false hpass
      SCHEDULE_ATTEMPT_FAILURE now p_info.key
    rw [if_pos (show p_info.key = (Inner.refresh p_info now).key from rfl),
      ← unlocked_done_places _ p_info.pod.uid] at hplaces
    exact ⟨congrArg Places.active hplaces, Bool.or_eq_false_iff.mpr
      ⟨congrArg Places.backoff hplaces, congrArg Places.error hplaces⟩⟩

def hinting_queue : PriorityQueue Unit :=
  { gating_queue with
    queueing_hint_map := (∅ : AList fun _ : String => QueueingHintMap Unit).insert "batch"
      ((∅ : QueueingHintMap Unit).insert (.new .Node ActionType.ADD)
        [⟨"Permit", fun _ _ _ => .ok .Queue⟩]) }

/-- A pod waits for a plugin when a node is added: it is in activeQ. -/
theorem parked_only_if_no_event_helps_node :
    ∃ (inner inner' : Inner hinting_queue) (p_info : QueuedPodInfo) (log : List (LogEntry Unit)),
      Reachable (observed hinting_queue) (inner, log) ∧
      inner.add_unschedulable_if_not_present p_info 3 = (inner', .ok ()) ∧
      inner'.active_q.has p_info = true ∧ inner'.backoff_q.has p_info = false := by
  have hinit : Exec (observed hinting_queue) [] (Inner.new hinting_queue none, []) :=
    .init ⟨⟨none, rfl⟩, rfl⟩
  have hpop := observed_call (observed_call hinit (.add (batch_pod "web" "u1") 1) trivial) .pop
    (.inl (by decide))
  have hnode := observed_call hpop (.move_all_to_active_or_backoff_queue (.new .Node ActionType.ADD)
    none none none [] 2) (Perm.refl [])
  have hplaced := (parked_only_if_no_event_helps hinting_queue hinting_queue
    (fun profile => by
      cases hinting_queue.queueing_hint_map.lookup profile with
      | none => exact .none
      | some m => exact .some (.refl _)) _ _ ⟨_, hnode⟩
    { QueuedPodInfo.for_lookup (batch_pod "web" "u1") with pending_plugins := {"Permit"} }
    (by decide) 3 _ rfl).2 (by decide +kernel) (by decide +kernel)
    fun _ (h : none = some _) => nomatch h
  exact ⟨_, _, _, _, ⟨_, hnode⟩, rfl, hplaced⟩

end Scheduler
