import Mathlib
import Rusternetes.Scheduler.Heap
import Rusternetes.Scheduler.Nominator

/-! # The Scheduling Queue

    `crates/scheduler/src/queue/scheduling_queue.rs`: activeQ, two backoff
    heaps and the pool of unschedulable pods, with the queueing hints that move
    pods between them and the record of events for pods in flight.

    One mutex guards everything, so every public function is one function on
    `Inner`. `now` is the clock as it stands while the mutex is held; `order`
    is the order in which a `HashMap` happens to list its values. Waking up the
    caller of `pop` is left out.
-/

namespace Scheduler

/-- Nanoseconds since the epoch. -/
abbrev SystemTime := Nat

/-- A span of nanoseconds. -/
abbrev Duration := Nat

def UNIX_EPOCH : SystemTime := 0

def from_secs (secs : Nat) : Duration := secs * 1000000000

/-! ### Data -/

/-- `QueuedPodInfo`: a pod with its status in the queue. -/
structure QueuedPodInfo where
  pod : Pod
  timestamp : SystemTime
  attempts : Nat
  backoff_expiration : Option SystemTime
  unschedulable_count : Nat
  consecutive_errors_count : Nat
  initial_attempt_timestamp : Option SystemTime
  unschedulable_plugins : Finset String
  pending_plugins : Finset String
  /-- The plugin that gated the pod, or `""`. -/
  gating_plugin : String
  gating_plugin_events : List ClusterEvent

namespace QueuedPodInfo

def for_lookup (pod : Pod) : QueuedPodInfo where
  pod := pod
  timestamp := UNIX_EPOCH
  attempts := 0
  backoff_expiration := none
  unschedulable_count := 0
  consecutive_errors_count := 0
  initial_attempt_timestamp := none
  unschedulable_plugins := ∅
  pending_plugins := ∅
  gating_plugin := ""
  gating_plugin_events := []

def gated (p : QueuedPodInfo) : Bool := p.gating_plugin != ""

def update (p : QueuedPodInfo) (pod : Pod) : QueuedPodInfo := { p with pod := pod }

def key (p : QueuedPodInfo) : String := pod_key p.pod

def rejector_plugins (p : QueuedPodInfo) : Finset String :=
  p.unschedulable_plugins ∪ p.pending_plugins

end QueuedPodInfo

inductive QueueingStrategy where
  | QueueSkip
  | QueueAfterBackoff
  | QueueImmediately
  deriving DecidableEq

/-- The names of the sub-queues (`ACTIVE_Q`, `BACKOFF_Q`, `UNSCHEDULABLE_Q`). -/
inductive QueueName where
  | active
  | backoff
  | unschedulable
  deriving DecidableEq

structure PreEnqueuePlugin where
  name : String
  pre_enqueue : Pod → Except String Unit

structure QueueingHintFunction (Obj : Type) where
  plugin_name : String
  queueing_hint_fn :
    Pod → Option (EventObject Obj) → Option (EventObject Obj) → Except String QueueingHint

abbrev QueueingHintMap (Obj : Type) :=
  AList (fun _ : ClusterEvent => List (QueueingHintFunction Obj))

structure InFlightEvent (Obj : Type) where
  event : ClusterEvent
  old_obj : Option (EventObject Obj)
  new_obj : Option (EventObject Obj)

inductive InFlightEntry (Obj : Type) where
  | pod (seq : Nat) (pod : Pod)
  | event (seq : Nat) (event : InFlightEvent Obj)

def InFlightEntry.seq {Obj : Type} : InFlightEntry Obj → Nat
  | .pod seq _ => seq
  | .event seq _ => seq

def InFlightEntry.is_pod {Obj : Type} : InFlightEntry Obj → Bool
  | .pod _ _ => true
  | .event _ _ => false

structure PriorityQueue (Obj : Type) where
  less_fn : QueuedPodInfo → QueuedPodInfo → Bool
  pod_initial_backoff : Duration
  pod_max_backoff : Duration
  pod_max_in_unschedulable_pods_duration : Duration
  /-- By profile. -/
  pre_enqueue_plugin_map : AList (fun _ : String => List PreEnqueuePlugin)
  /-- By profile. -/
  queueing_hint_map : AList (fun _ : String => QueueingHintMap Obj)

/-! ### Backoff times -/

def BACKOFF_Q_ORDERING_WINDOW_DURATION : Duration := from_secs 1

def align_to_window (t : SystemTime) : SystemTime :=
  let window := BACKOFF_Q_ORDERING_WINDOW_DURATION / 1000000000
  from_secs (t / 1000000000 / window * window)

def calculate_backoff_duration (initial max : Duration) (count : Nat) : Duration :=
  if count = 0 then 0
  else
    let shift := (count - 1) % 2 ^ 32
    let max_shifted := if shift < 128 then max >>> shift else 0
    if initial > max_shifted then max
    else
      -- `checked_shl` of a `u128` fails on the shift alone, and drops high bits
      let shifted := (initial <<< shift) % 2 ^ 128
      if shift < 128 ∧ shifted ≤ 2 ^ 64 - 1 then shifted else max

def backoff_time (initial max : Duration) (p_info : QueuedPodInfo) : SystemTime :=
  if max = 0 then UNIX_EPOCH
  else
    let count :=
      if p_info.consecutive_errors_count > 0 then p_info.consecutive_errors_count
      else p_info.unschedulable_count
    if count = 0 then UNIX_EPOCH
    else
      match p_info.backoff_expiration with
      | some cached => cached
      | none => align_to_window (p_info.timestamp + calculate_backoff_duration initial max count)

variable {Obj : Type}

namespace PriorityQueue

def backoff_time (q : PriorityQueue Obj) (p_info : QueuedPodInfo) : SystemTime :=
  Scheduler.backoff_time q.pod_initial_backoff q.pod_max_backoff p_info

/-- `less_backoff_completed`, the order of `pod_error_backoff_q`. -/
def less_backoff_completed (q : PriorityQueue Obj) (a b : QueuedPodInfo) : Bool :=
  decide (q.backoff_time a < q.backoff_time b)

/-- `less_backoff_with_priority`, the order of `pod_backoff_q`. -/
def less_backoff_with_priority (q : PriorityQueue Obj) (a b : QueuedPodInfo) : Bool :=
  if q.backoff_time a ≠ q.backoff_time b then decide (q.backoff_time a < q.backoff_time b)
  else q.less_fn a b

/-- `plugin_to_events_map`, as `build_event_map` makes it. -/
def plugin_to_events (q : PriorityQueue Obj) (plugin : String) : List ClusterEvent :=
  q.queueing_hint_map.entries.flatMap fun profile =>
    profile.2.entries.flatMap fun e =>
      (e.2.filter fun hint => hint.plugin_name == plugin).map fun _ => e.1

def is_pod_backing_off (q : PriorityQueue Obj) (p_info : QueuedPodInfo) (now : SystemTime) :
    Bool :=
  decide (q.backoff_time p_info ≥ align_to_window now)

end PriorityQueue

/-! ### Sub-queues -/

structure BackoffQueue (q : PriorityQueue Obj) where
  pod_backoff_q : Heap QueuedPodInfo.key q.less_backoff_with_priority
  pod_error_backoff_q : Heap QueuedPodInfo.key q.less_backoff_completed

namespace BackoffQueue

variable {q : PriorityQueue Obj}

def is_error_pod (p : QueuedPodInfo) : Bool :=
  decide (p.unschedulable_plugins = ∅) && decide (p.pending_plugins = ∅)

def add (b : BackoffQueue q) (p_info : QueuedPodInfo) : BackoffQueue q :=
  if is_error_pod p_info then
    { pod_error_backoff_q := b.pod_error_backoff_q.add_or_update p_info
      pod_backoff_q := (b.pod_backoff_q.delete_by_key p_info.key).1 }
  else
    { pod_backoff_q := b.pod_backoff_q.add_or_update p_info
      pod_error_backoff_q := (b.pod_error_backoff_q.delete_by_key p_info.key).1 }

def update (b : BackoffQueue q) (new_pod : Pod) : BackoffQueue q × Bool :=
  match b.pod_backoff_q.get_by_key (pod_key new_pod) with
  | some p => ({ b with pod_backoff_q := b.pod_backoff_q.add_or_update (p.update new_pod) }, true)
  | none =>
    match b.pod_error_backoff_q.get_by_key (pod_key new_pod) with
    | some p =>
      ({ b with pod_error_backoff_q := b.pod_error_backoff_q.add_or_update (p.update new_pod) },
        true)
    | none => (b, false)

def take (b : BackoffQueue q) (lookup : QueuedPodInfo) : BackoffQueue q × Option QueuedPodInfo :=
  match b.pod_backoff_q.delete lookup with
  | (h, .ok p) => ({ b with pod_backoff_q := h }, some p)
  | (_, .error _) =>
    match b.pod_error_backoff_q.delete lookup with
    | (h, .ok p) => ({ b with pod_error_backoff_q := h }, some p)
    | (_, .error _) => (b, none)

def delete (b : BackoffQueue q) (p_info : QueuedPodInfo) : BackoffQueue q × Bool :=
  ((b.take p_info).1, (b.take p_info).2.isSome)

def has (b : BackoffQueue q) (p_info : QueuedPodInfo) : Bool :=
  b.pod_backoff_q.has p_info || b.pod_error_backoff_q.has p_info

/-- The inner loop of `pop_all_backoff_completed`, for one of the two heaps:
    pop while the head's backoff ended before `window`. -/
def pop_completed (q : PriorityQueue Obj) {less_fn : QueuedPodInfo → QueuedPodInfo → Bool}
    (window : SystemTime) :
    Nat → Heap QueuedPodInfo.key less_fn → Heap QueuedPodInfo.key less_fn × List QueuedPodInfo
  | 0, h => (h, [])
  | fuel + 1, h =>
    match h.peek with
    | none => (h, [])
    | some p =>
      if q.backoff_time p ≥ window then (h, [])
      else
        match h.pop with
        | (h', .ok p) =>
          let r := pop_completed q window fuel h'
          (r.1, p :: r.2)
        | (_, .error _) => (h, [])

def pop_all_backoff_completed (b : BackoffQueue q) (now : SystemTime) :
    BackoffQueue q × List QueuedPodInfo :=
  let window := align_to_window now
  let r := pop_completed q window b.pod_backoff_q.len b.pod_backoff_q
  let e := pop_completed q window b.pod_error_backoff_q.len b.pod_error_backoff_q
  (⟨r.1, e.1⟩, r.2 ++ e.2)

end BackoffQueue

/-- `UnschedulablePods`: every pod stands under its own key. -/
structure UnschedulablePods where
  pod_info_map : AList (fun _ : String => QueuedPodInfo)
  keyed : ∀ k p, pod_info_map.lookup k = some p → p.key = k

namespace UnschedulablePods

/-- `UnschedulablePods::default`. -/
def empty : UnschedulablePods where
  pod_info_map := ∅
  keyed := by
    intro k p hp
    simp at hp

def add_or_update (u : UnschedulablePods) (p_info : QueuedPodInfo) : UnschedulablePods where
  pod_info_map := u.pod_info_map.insert p_info.key p_info
  keyed := by
    intro k p hp
    by_cases hk : k = p_info.key
    · subst hk
      rw [AList.lookup_insert] at hp
      rw [Option.some.inj hp]
    · rw [AList.lookup_insert_ne hk] at hp
      exact u.keyed k p hp

def get (u : UnschedulablePods) (pod : Pod) : Option QueuedPodInfo :=
  u.pod_info_map.lookup (pod_key pod)

def delete (u : UnschedulablePods) (pod : Pod) : UnschedulablePods where
  pod_info_map := u.pod_info_map.erase (pod_key pod)
  keyed := by
    intro k p hp
    by_cases hk : k = pod_key pod
    · subst hk
      rw [AList.lookup_erase] at hp
      cases hp
    · rw [AList.lookup_erase_ne hk] at hp
      exact u.keyed k p hp

/-- The pods, in the model's own order. -/
def values (u : UnschedulablePods) : List QueuedPodInfo :=
  u.pod_info_map.entries.map Sigma.snd

end UnschedulablePods

/-- `Inner`: everything behind the mutex. -/
structure Inner (q : PriorityQueue Obj) where
  active_q : Heap QueuedPodInfo.key q.less_fn
  backoff_q : BackoffQueue q
  unschedulable_pods : UnschedulablePods
  /-- UID to the `seq` of the pod's entry in `in_flight_events`. -/
  in_flight_pods : AList (fun _ : String => Nat)
  in_flight_events : List (InFlightEntry Obj)
  next_seq : Nat
  sched_cycle : Int
  closed : Bool
  nominator : Nominator

/-- The initial `Inner` of `PriorityQueue::new`. -/
def Inner.new (q : PriorityQueue Obj) (pod_lister : Option PodLister) : Inner q where
  active_q := .new
  backoff_q := ⟨.new, .new⟩
  unschedulable_pods := .empty
  in_flight_pods := ∅
  in_flight_events := []
  next_seq := 0
  sched_cycle := 0
  closed := false
  nominator := .new pod_lister

end Scheduler
