import Rusternetes.Framework.LTS
import Rusternetes.Scheduler.Queue

/-! # The Scheduling Queue: Operations

    The functions of `PriorityQueue` and `Inner`, each as a function on
    `Inner`, and the queue as a transition system with one label for each
    public function.
-/

open LTS

namespace Scheduler

variable {Obj : Type} {q : PriorityQueue Obj}

/-! ### Hints -/

namespace PriorityQueue

def is_event_of_interest (q : PriorityQueue Obj) (event : ClusterEvent) : Bool :=
  cluster_event_is_wild_card event ||
    q.queueing_hint_map.entries.any fun profile =>
      profile.2.entries.any fun e => match_cluster_events e.1 event

/-- The loop of `is_pod_worth_requeuing` over the hint functions registered for
    the event, from the strategy found so far. -/
def hint_loop (p_info : QueuedPodInfo) (old_obj new_obj : Option (EventObject Obj)) :
    List (QueueingHintFunction Obj) → QueueingStrategy → QueueingStrategy
  | [], queue_strategy => queue_strategy
  | hintfn :: rest, queue_strategy =>
    if hintfn.plugin_name ∉ p_info.rejector_plugins then
      hint_loop p_info old_obj new_obj rest queue_strategy
    else
      let hint :=
        match hintfn.queueing_hint_fn p_info.pod old_obj new_obj with
        | .ok h => h
        -- an error counts as `Queue`, so that the pod cannot get stuck
        | .error _ => .Queue
      if hint = .QueueSkip then hint_loop p_info old_obj new_obj rest queue_strategy
      else if hintfn.plugin_name ∈ p_info.pending_plugins then .QueueImmediately
      else if p_info.pending_plugins = ∅ then .QueueAfterBackoff
      else hint_loop p_info old_obj new_obj rest .QueueAfterBackoff

def is_pod_worth_requeuing (q : PriorityQueue Obj) (p_info : QueuedPodInfo)
    (event : ClusterEvent) (old_obj new_obj : Option (EventObject Obj)) : QueueingStrategy :=
  if p_info.rejector_plugins = ∅ then .QueueAfterBackoff
  else if cluster_event_is_wild_card event then
    -- a wildcard event with a pod is for that pod only
    match new_obj with
    | some (.pod pod) =>
      if pod.uid = p_info.pod.uid then .QueueAfterBackoff else .QueueSkip
    | some (.other _) => .QueueSkip
    | none => .QueueAfterBackoff
  else
    match q.queueing_hint_map.lookup (pod_scheduler_name p_info.pod) with
    | none => .QueueAfterBackoff
    | some hint_map =>
      let hintfns :=
        (hint_map.entries.filter fun e => match_cluster_events e.1 event).flatMap (·.2)
      hint_loop p_info old_obj new_obj hintfns .QueueSkip

/-! ### PreEnqueue -/

def run_pre_enqueue_plugin (q : PriorityQueue Obj) (pl : PreEnqueuePlugin)
    (p_info : QueuedPodInfo) : QueuedPodInfo × Bool :=
  match pl.pre_enqueue p_info.pod with
  | .ok _ => (p_info, true)
  | .error _ =>
    ({ p_info with
        unschedulable_plugins := insert pl.name p_info.unschedulable_plugins
        gating_plugin := pl.name
        gating_plugin_events := q.plugin_to_events pl.name }, false)

/-- The loop of `run_pre_enqueue_plugins`, past the plugin that has been run. -/
def pre_enqueue_loop (q : PriorityQueue Obj) (gating_plugin : String) :
    List PreEnqueuePlugin → QueuedPodInfo → QueuedPodInfo × Bool
  | [], p_info => (p_info, true)
  | pl :: rest, p_info =>
    if gating_plugin ≠ "" ∧ pl.name = gating_plugin then
      pre_enqueue_loop q gating_plugin rest p_info
    else
      let r := q.run_pre_enqueue_plugin pl p_info
      if r.2 then pre_enqueue_loop q gating_plugin rest r.1 else r

/-- `run_pre_enqueue_plugins`: the gating plugin first, then the rest. -/
def run_pre_enqueue_plugins (q : PriorityQueue Obj) (p_info : QueuedPodInfo) : QueuedPodInfo :=
  match q.pre_enqueue_plugin_map.lookup (pod_scheduler_name p_info.pod) with
  | none => { p_info with gating_plugin := "" }
  | some plugins =>
    let gating_plugin := p_info.gating_plugin
    let first : QueuedPodInfo × Bool :=
      if gating_plugin ≠ "" then
        match plugins.find? fun pl => pl.name == gating_plugin with
        | some pl => q.run_pre_enqueue_plugin pl p_info
        | none => (p_info, true)
      else (p_info, true)
    if first.2 then
      let r := q.pre_enqueue_loop gating_plugin plugins first.1
      if r.2 then { r.1 with gating_plugin := "" } else r.1
    else first.1

def new_queued_pod_info (pod : Pod) (now : SystemTime) : QueuedPodInfo :=
  { QueuedPodInfo.for_lookup pod with timestamp := now }

end PriorityQueue

namespace Inner

/-! ### Moves between sub-queues -/

/-- `move_to_active_q`: whether the pod was added to activeQ. -/
def move_to_active_q (inner : Inner q) (p_info : QueuedPodInfo) (event : String)
    (moves_from_backoff_q : Bool) (now : SystemTime) : Inner q × Bool :=
  let p_info := if moves_from_backoff_q then p_info else q.run_pre_enqueue_plugins p_info
  if p_info.gated then
    if inner.active_q.has p_info || inner.backoff_q.has p_info ||
        (inner.unschedulable_pods.get p_info.pod).isSome then (inner, false)
    else
      ({ inner with unschedulable_pods := inner.unschedulable_pods.add_or_update p_info }, false)
  else
    let p_info :=
      if p_info.initial_attempt_timestamp.isNone then
        { p_info with initial_attempt_timestamp := some now }
      else p_info
    ({ inner with
        unschedulable_pods := inner.unschedulable_pods.delete p_info.pod
        backoff_q := (inner.backoff_q.delete p_info).1
        nominator :=
          if event = EVENT_UNSCHEDULED_POD_ADD.label ∨
              event = EVENT_UNSCHEDULED_POD_UPDATE.label then
            inner.nominator.add_nominated_pod p_info.pod none
          else inner.nominator
        active_q := inner.active_q.add_or_update p_info }, true)

/-- `move_to_backoff_q`: whether the pod was added to backoffQ. -/
def move_to_backoff_q (inner : Inner q) (p_info : QueuedPodInfo) : Inner q × Bool :=
  let p_info := q.run_pre_enqueue_plugins p_info
  if p_info.gated then
    if (inner.unschedulable_pods.get p_info.pod).isNone then
      ({ inner with unschedulable_pods := inner.unschedulable_pods.add_or_update p_info }, false)
    else (inner, false)
  else
    ({ inner with
        unschedulable_pods := inner.unschedulable_pods.delete p_info.pod
        backoff_q := inner.backoff_q.add p_info }, true)

/-- `requeue_pod_with_queueing_strategy`: the sub-queue the pod went to. -/
def requeue_pod_with_queueing_strategy (inner : Inner q) (p_info : QueuedPodInfo)
    (strategy : QueueingStrategy) (event : String) (now : SystemTime) : Inner q × QueueName :=
  if strategy = .QueueSkip then
    ({ inner with unschedulable_pods := inner.unschedulable_pods.add_or_update p_info },
      .unschedulable)
  else if strategy = .QueueAfterBackoff ∧ q.is_pod_backing_off p_info now = true then
    let r := inner.move_to_backoff_q p_info
    (r.1, if r.2 then .backoff else .unschedulable)
  else
    let r := inner.move_to_active_q p_info event false now
    (r.1, if r.2 then .active else .unschedulable)

/-! ### Pods in flight -/

/-- Append an event to `in_flight_events`, under the next `seq`. -/
def record (inner : Inner q) (event : InFlightEvent Obj) : Inner q :=
  { inner with
    next_seq := inner.next_seq + 1
    in_flight_events := inner.in_flight_events ++ [.event inner.next_seq event] }

def add_events_if_pod_in_flight (inner : Inner q) (old_pod : Option Pod) (new_pod : Pod)
    (events : List ClusterEvent) : Inner q × Bool :=
  if new_pod.uid ∈ inner.in_flight_pods then
    ((events.map fun ev => ⟨ev, old_pod.map .pod, some (.pod new_pod)⟩).foldl record inner, true)
  else (inner, false)

def add_event_if_any_in_flight (inner : Inner q) (old_obj new_obj : Option (EventObject Obj))
    (event : ClusterEvent) : Inner q × Bool :=
  if inner.in_flight_pods.entries.isEmpty then (inner, false)
  else (inner.record ⟨event, old_obj, new_obj⟩, true)

def cluster_events_for_pod (inner : Inner q) (p_info : QueuedPodInfo) :
    Except String (List (InFlightEvent Obj)) :=
  match inner.in_flight_pods.lookup p_info.pod.uid with
  | none => .error ("in flight Pod isn't found in the scheduling queue. " ++
      "If you see this error log, it's likely a bug in the scheduler")
  | some seq =>
    .ok ((inner.in_flight_events.filter fun e => decide (e.seq > seq)).filterMap fun e =>
      match e with
      | .event _ event => some event
      | .pod _ _ => none)

/-- `unlocked_done`: forget the pod, then drop the leading events that no pod in
    flight refers to. -/
def unlocked_done (inner : Inner q) (uid : String) : Inner q :=
  match inner.in_flight_pods.lookup uid with
  | none => inner
  | some seq =>
    { inner with
      in_flight_pods := inner.in_flight_pods.erase uid
      in_flight_events :=
        (inner.in_flight_events.eraseP fun e => e.seq == seq).dropWhile fun e => !e.is_pod }

/-- What `unlocked_pop` removes: the head of activeQ or, when that is empty, of
    `pod_backoff_q`. -/
def pop_next (inner : Inner q) : Inner q × Option QueuedPodInfo :=
  match inner.active_q.pop with
  | (h, .ok p) => ({ inner with active_q := h }, some p)
  | (_, .error _) =>
    match inner.backoff_q.pod_backoff_q.pop with
    | (h, .ok p) => ({ inner with backoff_q := { inner.backoff_q with pod_backoff_q := h } }, some p)
    | (_, .error _) => (inner, none)

def start (inner : Inner q) (p_info : QueuedPodInfo) : Inner q × QueuedPodInfo :=
  ({ inner with
      next_seq := inner.next_seq + 1
      in_flight_events := inner.in_flight_events ++ [.pod inner.next_seq p_info.pod]
      in_flight_pods := inner.in_flight_pods.insert p_info.pod.uid inner.next_seq
      sched_cycle := inner.sched_cycle + 1 },
    { p_info with
      attempts := p_info.attempts + 1
      unschedulable_plugins := ∅
      pending_plugins := ∅
      gating_plugin := ""
      gating_plugin_events := [] })

/-- `unlocked_pop`, calling itself at most `fuel` times: a pod that is in flight
    already is discarded. -/
def unlocked_pop_loop : Nat → Inner q → Inner q × Option QueuedPodInfo
  | 0, inner => (inner, none)
  | fuel + 1, inner =>
    match inner.pop_next with
    | (inner', none) => (inner', none)
    | (inner', some p_info) =>
      if p_info.pod.uid ∈ inner'.in_flight_pods then unlocked_pop_loop fuel inner'
      else
        let r := inner'.start p_info
        (r.1, some r.2)

/-- `unlocked_pop`. Each call takes a pod out of the two heaps, so there are at
    most as many calls as pods, and one that finds nothing. -/
def unlocked_pop (inner : Inner q) : Inner q × Option QueuedPodInfo :=
  unlocked_pop_loop (inner.active_q.len + inner.backoff_q.pod_backoff_q.len + 1) inner

/-- The pods `unlocked_pop` can take. -/
def poppable (inner : Inner q) : Nat := inner.active_q.len + inner.backoff_q.pod_backoff_q.len

theorem poppable_pop_next {inner inner' : Inner q} {p_info : QueuedPodInfo}
    (h : inner.pop_next = (inner', some p_info)) : inner'.poppable + 1 = inner.poppable := by
  unfold pop_next at h
  rcases inner.active_q.pop_cases with ⟨_, hpop⟩ | ⟨p, _, hres, _, hlen⟩
  · rw [hpop] at h
    rcases inner.backoff_q.pod_backoff_q.pop_cases with ⟨_, hpop'⟩ | ⟨p, _, hres, _, hlen⟩
    · simp [hpop'] at h
    · have hpop' : inner.backoff_q.pod_backoff_q.pop =
          (inner.backoff_q.pod_backoff_q.pop.1, .ok p) := Prod.ext rfl hres
      rw [hpop'] at h
      obtain ⟨rfl, _⟩ := Prod.mk.inj h
      simp only [poppable]
      omega
  · have hpop : inner.active_q.pop = (inner.active_q.pop.1, .ok p) := Prod.ext rfl hres
    rw [hpop] at h
    obtain ⟨rfl, _⟩ := Prod.mk.inj h
    simp only [poppable]
    omega

/-- More calls than there are pods make no difference. -/
theorem unlocked_pop_loop_eq {fuel : Nat} {inner : Inner q} (h : inner.poppable < fuel) :
    unlocked_pop_loop fuel inner = inner.unlocked_pop := by
  have hall : ∀ n m (inner : Inner q), inner.poppable < n → inner.poppable < m →
      unlocked_pop_loop n inner = unlocked_pop_loop m inner := by
    intro n
    induction n with
    | zero => intro m inner hn _; omega
    | succ n ih =>
      intro m inner hn hm
      cases m with
      | zero => omega
      | succ m =>
        unfold unlocked_pop_loop
        split
        · rfl
        · rename_i inner' p_info heq
          have hlen := poppable_pop_next heq
          split_ifs
          · exact ih m inner' (by omega) (by omega)
          · rfl
  exact hall fuel _ inner h (Nat.lt_succ_self _)

/-- `unlocked_pop` is the recursion of the source. -/
theorem unlocked_pop_eq (inner : Inner q) :
    inner.unlocked_pop =
      match inner.pop_next with
      | (inner', none) => (inner', none)
      | (inner', some p_info) =>
        if p_info.pod.uid ∈ inner'.in_flight_pods then inner'.unlocked_pop
        else ((inner'.start p_info).1, some (inner'.start p_info).2) := by
  rw [unlocked_pop, unlocked_pop_loop]
  split
  · rfl
  · rename_i inner' p_info heq
    have hlen := poppable_pop_next heq
    split_ifs
    · exact unlocked_pop_loop_eq (by unfold poppable at hlen ⊢; omega)
    · rfl

/-! ### Public functions -/

def add (inner : Inner q) (pod : Pod) (now : SystemTime) : Inner q :=
  (inner.move_to_active_q (PriorityQueue.new_queued_pod_info pod now)
    EVENT_UNSCHEDULED_POD_ADD.label false now).1

def activate_one (inner : Inner q) (pod : Pod) (now : SystemTime) : Inner q × Bool :=
  match inner.unschedulable_pods.get pod with
  | some p =>
    -- taken out and put back; `move_to_active_q` deletes it again by key
    let inner := { inner with
      unschedulable_pods := (inner.unschedulable_pods.delete pod).add_or_update p }
    inner.move_to_active_q p FORCE_ACTIVATE false now
  | none =>
    match inner.backoff_q.take (QueuedPodInfo.for_lookup pod) with
    | (_, none) => (inner, false)
    | (b, some p) => { inner with backoff_q := b }.move_to_active_q p FORCE_ACTIVATE true now

/-- One turn of the loop of `activate`. -/
def activate_turn (now : SystemTime) (inner : Inner q) (pod : Pod) : Inner q :=
  let r := inner.activate_one pod now
  if r.2 then r.1
  else (r.1.add_events_if_pod_in_flight none pod [EVENT_FORCE_ACTIVATE]).1

def activate (inner : Inner q) (pods : List Pod) (now : SystemTime) : Inner q :=
  pods.foldl (activate_turn now) inner

/-- The loop of `determine_scheduling_hint_for_in_flight_pod`. -/
def hint_of_events (q : PriorityQueue Obj) (p_info : QueuedPodInfo) :
    List (InFlightEvent Obj) → QueueingStrategy → QueueingStrategy
  | [], queueing_strategy => queueing_strategy
  | e :: rest, queueing_strategy =>
    match q.is_pod_worth_requeuing p_info e.event e.old_obj e.new_obj with
    | .QueueSkip => hint_of_events q p_info rest queueing_strategy
    | .QueueImmediately => .QueueImmediately
    | .QueueAfterBackoff =>
      if p_info.pending_plugins = ∅ then .QueueAfterBackoff
      else hint_of_events q p_info rest .QueueAfterBackoff

def determine_scheduling_hint_for_in_flight_pod (inner : Inner q) (p_info : QueuedPodInfo) :
    QueueingStrategy :=
  if p_info.rejector_plugins = ∅ then .QueueAfterBackoff
  else
    match inner.cluster_events_for_pod p_info with
    | .error _ => .QueueAfterBackoff
    | .ok events => hint_of_events q p_info events .QueueSkip

/-- How `add_unschedulable_if_not_present` refreshes the pod's record. -/
def refresh (p_info : QueuedPodInfo) (now : SystemTime) : QueuedPodInfo :=
  { p_info with
    consecutive_errors_count :=
      if p_info.rejector_plugins = ∅ then p_info.consecutive_errors_count + 1 else 0
    unschedulable_count :=
      if p_info.rejector_plugins = ∅ then p_info.unschedulable_count
      else p_info.unschedulable_count + 1
    timestamp := now
    backoff_expiration := none }

/-- `add_unschedulable_if_not_present`; the pod is `done` in any case. -/
def add_unschedulable_if_not_present (inner : Inner q) (p_info : QueuedPodInfo)
    (now : SystemTime) : Inner q × Except String Unit :=
  let uid := p_info.pod.uid
  let key := p_info.key
  if (inner.unschedulable_pods.get p_info.pod).isSome then
    (inner.unlocked_done uid,
      .error ("Pod " ++ key ++ " is already present in unschedulable queue"))
  else if inner.active_q.has p_info then
    (inner.unlocked_done uid,
      .error ("Pod " ++ key ++ " is already present in the active queue"))
  else if inner.backoff_q.has p_info then
    (inner.unlocked_done uid,
      .error ("Pod " ++ key ++ " is already present in the backoff queue"))
  else
    let p_info := refresh p_info now
    let scheduling_hint := inner.determine_scheduling_hint_for_in_flight_pod p_info
    let r := inner.requeue_pod_with_queueing_strategy p_info scheduling_hint
      SCHEDULE_ATTEMPT_FAILURE now
    (r.1.unlocked_done uid, .ok ())

def flush_backoff_q_completed (inner : Inner q) (now : SystemTime) : Inner q :=
  let r := inner.backoff_q.pop_all_backoff_completed now
  r.2.foldl (fun inner p_info => (inner.move_to_active_q p_info BACKOFF_COMPLETE true now).1)
    { inner with backoff_q := r.1 }

/-- One turn of the loop of `move_pods_to_active_or_backoff_queue`. -/
def move_pod_to_active_or_backoff_queue (inner : Inner q) (event : ClusterEvent)
    (old_obj new_obj : Option (EventObject Obj)) (now : SystemTime) (p_info : QueuedPodInfo) :
    Inner q :=
  -- a gated pod is looked at again only for the events of its gating plugin
  if p_info.gated && !cluster_event_is_wild_card event &&
      !match_any_cluster_event event p_info.gating_plugin_events then inner
  else
    let scheduling_hint := q.is_pod_worth_requeuing p_info event old_obj new_obj
    if scheduling_hint = .QueueSkip then inner
    else
      ({ inner with
          unschedulable_pods := inner.unschedulable_pods.delete p_info.pod
        }.requeue_pod_with_queueing_strategy p_info scheduling_hint event.label now).1

def move_pods_to_active_or_backoff_queue (inner : Inner q) (pod_info_list : List QueuedPodInfo)
    (event : ClusterEvent) (old_obj new_obj : Option (EventObject Obj)) (now : SystemTime) :
    Inner q :=
  if q.is_event_of_interest event then
    let inner := pod_info_list.foldl
      (fun inner p => inner.move_pod_to_active_or_backoff_queue event old_obj new_obj now p) inner
    (inner.add_event_if_any_in_flight old_obj new_obj event).1
  else inner

/-- The pods `flush_unschedulable_pods_leftover` moves. -/
def leftover (inner : Inner q) (now : SystemTime) : List QueuedPodInfo :=
  inner.unschedulable_pods.values.filter fun p =>
    decide (p.timestamp ≤ now) &&
      decide (now - p.timestamp > q.pod_max_in_unschedulable_pods_duration)

/-- `flush_unschedulable_pods_leftover`, with the pods in the order `order`. -/
def flush_unschedulable_pods_leftover (inner : Inner q) (order : List QueuedPodInfo)
    (now : SystemTime) : Inner q :=
  if order.isEmpty then inner
  else inner.move_pods_to_active_or_backoff_queue order EVENT_UNSCHEDULABLE_TIMEOUT none none now

/-- The pods `move_all_to_active_or_backoff_queue` looks at. -/
def candidates (inner : Inner q) (pre_check : Option (Pod → Bool)) : List QueuedPodInfo :=
  inner.unschedulable_pods.values.filter fun p =>
    match pre_check with
    | none => true
    | some check => check p.pod

/-- `move_all_to_active_or_backoff_queue`, with the pods in the order `order`. -/
def move_all_to_active_or_backoff_queue (inner : Inner q) (event : ClusterEvent)
    (old_obj new_obj : Option (EventObject Obj)) (order : List QueuedPodInfo)
    (now : SystemTime) : Inner q :=
  if q.is_event_of_interest event then
    inner.move_pods_to_active_or_backoff_queue order event old_obj new_obj now
  else inner

/-- The loop of `update` for a pod in `unschedulable_pods`. -/
def update_loop (old_pod : Option Pod) (new_pod : Pod) (now : SystemTime) :
    List ClusterEvent → Inner q → Inner q
  | [], inner => inner
  | evt :: rest, inner =>
    match inner.unschedulable_pods.get new_pod with
    | none => inner
    | some p_info =>
      let hint := q.is_pod_worth_requeuing p_info evt (old_pod.map .pod) (some (.pod new_pod))
      let inner :=
        if hint ≠ .QueueSkip then
          { inner with unschedulable_pods := inner.unschedulable_pods.delete new_pod }
        else inner
      match inner.requeue_pod_with_queueing_strategy p_info hint evt.label now with
      | (inner, .unschedulable) => update_loop old_pod new_pod now rest inner
      | (inner, _) => inner

/-- The part of `update` for a pod that is in `unschedulable_pods`, or in no
    sub-queue that the earlier parts look at. -/
def update_unschedulable (inner : Inner q) (old_pod : Option Pod) (new_pod : Pod)
    (events : List ClusterEvent) (now : SystemTime) : Inner q :=
  match inner.unschedulable_pods.get new_pod with
  | some p_info =>
    let inner := { inner with
      nominator := inner.nominator.update_nominated_pod (old_pod.getD new_pod) new_pod
      unschedulable_pods :=
        (inner.unschedulable_pods.delete new_pod).add_or_update (p_info.update new_pod) }
    update_loop old_pod new_pod now events inner
  | none =>
    (inner.move_to_active_q (PriorityQueue.new_queued_pod_info new_pod now)
      EVENT_UNSCHEDULED_POD_UPDATE.label false now).1

/-- The part of `update` for a pod that is not in flight. -/
def update_queued (inner : Inner q) (old_pod : Option Pod) (new_pod : Pod)
    (events : List ClusterEvent) (now : SystemTime) : Inner q :=
  match old_pod with
  | some old =>
    match inner.active_q.get_by_key (pod_key new_pod) with
    | some p =>
      { inner with
        active_q := inner.active_q.add_or_update (p.update new_pod)
        nominator := inner.nominator.update_nominated_pod old new_pod }
    | none =>
      let r := inner.backoff_q.update new_pod
      if r.2 then
        { inner with
          backoff_q := r.1
          nominator := inner.nominator.update_nominated_pod old new_pod }
      else inner.update_unschedulable old_pod new_pod events now
  | none => inner.update_unschedulable old_pod new_pod events now

def update_events (old_pod : Option Pod) (new_pod : Pod) : List ClusterEvent :=
  match old_pod with
  | some old => pod_scheduling_properties_change new_pod old
  | none => []

def update (inner : Inner q) (old_pod : Option Pod) (new_pod : Pod) (now : SystemTime) :
    Inner q :=
  let events := update_events old_pod new_pod
  let r := inner.add_events_if_pod_in_flight old_pod new_pod events
  if r.2 then r.1 else r.1.update_queued old_pod new_pod events now

def delete (inner : Inner q) (pod : Pod) : Inner q :=
  let inner := { inner with nominator := inner.nominator.delete pod }
  let lookup := QueuedPodInfo.for_lookup pod
  match inner.active_q.delete lookup with
  | (h, .ok _) => { inner with active_q := h }
  | (_, .error _) =>
    match inner.backoff_q.delete lookup with
    | (b, true) => { inner with backoff_q := b }
    | (_, false) =>
      { inner with unschedulable_pods := inner.unschedulable_pods.delete pod }

/-- `close`, with the pods in flight in the order `order`. -/
def close (inner : Inner q) (order : List String) : Inner q :=
  { order.foldl unlocked_done inner with closed := true }

end Inner

/-! ### The queue as a system -/

/-- The calls. -/
inductive Op (Obj : Type) where
  | add (pod : Pod) (now : SystemTime)
  | activate (pods : List Pod) (now : SystemTime)
  /-- A turn of `pop` that takes something out of the heaps. -/
  | pop
  | done (uid : String)
  | update (old_pod : Option Pod) (new_pod : Pod) (now : SystemTime)
  | delete (pod : Pod)
  | add_unschedulable_if_not_present (p_info : QueuedPodInfo) (now : SystemTime)
  | move_all_to_active_or_backoff_queue (event : ClusterEvent)
      (old_obj new_obj : Option (EventObject Obj)) (pre_check : Option (Pod → Bool))
      (order : List QueuedPodInfo) (now : SystemTime)
  | flush_backoff_q_completed (now : SystemTime)
  | flush_unschedulable_pods_leftover (order : List QueuedPodInfo) (now : SystemTime)
  | add_nominated_pod (pod : Pod) (info : Option NominatingInfo)
  | delete_nominated_pod_if_exists (pod : Pod)
  | close (order : List String)

/-- What a call does to the state. -/
def Op.apply (inner : Inner q) : Op Obj → Inner q
  | .add pod now => inner.add pod now
  | .activate pods now => inner.activate pods now
  | .pop => inner.unlocked_pop.1
  | .done uid => inner.unlocked_done uid
  | .update old_pod new_pod now => inner.update old_pod new_pod now
  | .delete pod => inner.delete pod
  | .add_unschedulable_if_not_present p_info now =>
    (inner.add_unschedulable_if_not_present p_info now).1
  | .move_all_to_active_or_backoff_queue event old_obj new_obj _ order now =>
    inner.move_all_to_active_or_backoff_queue event old_obj new_obj order now
  | .flush_backoff_q_completed now => inner.flush_backoff_q_completed now
  | .flush_unschedulable_pods_leftover order now =>
    inner.flush_unschedulable_pods_leftover order now
  | .add_nominated_pod pod info =>
    { inner with nominator := inner.nominator.add_nominated_pod pod info }
  | .delete_nominated_pod_if_exists pod => { inner with nominator := inner.nominator.delete pod }
  | .close order => inner.close order

/-- What the order arguments of a call can be, and when `pop` goes on. -/
def Op.enabled (inner : Inner q) : Op Obj → Prop
  | .pop => inner.active_q.is_empty = false ∨ inner.backoff_q.pod_backoff_q.len ≠ 0
  | .move_all_to_active_or_backoff_queue _ _ _ pre_check order _ =>
    order.Perm (inner.candidates pre_check)
  | .flush_unschedulable_pods_leftover order now => order.Perm (inner.leftover now)
  | .close order => order.Perm inner.in_flight_pods.keys
  | _ => True

/-- The scheduling queue as a labelled transition system. -/
def priority_queue (q : PriorityQueue Obj) : System (Inner q) (Op Obj) where
  init := fun inner => ∃ pod_lister, inner = .new q pod_lister
  step := fun inner op inner' => op.enabled inner ∧ inner' = op.apply inner

end Scheduler
