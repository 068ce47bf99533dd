import Rusternetes.Scheduler.Partition

/-! # The Scheduling Queue: Pods in Flight

    Between `pop` and `done` a pod is in flight, and the events that happen
    meanwhile must reach it when it comes back unschedulable. The queue keeps
    one list of popped pods and events, shared by all pods in flight, and
    prunes it from the front.

    An observer writes down every pod that is popped and every event that is
    recorded, and never forgets anything (`observe`). For each pod in flight
    the queue answers exactly what the observer has seen since that pod was
    popped.

    ## Proof sketch

    Only three things happen to the in-flight data: an event is appended, a
    popped pod is appended, a pod is removed and the front pruned. `Tracks`
    relates the data to the observer's log and is kept by each of the three
    (`Tracks.record`, `Tracks.start`, `Tracks.done`). Every call is a sequence
    of them.
-/

open AList Framework LTS List

namespace Scheduler

variable {Obj : Type}

/-! ### The observer -/

/-- What the observer writes down. -/
inductive LogEntry (Obj : Type) where
  | popped (uid : String)
  | recorded (event : InFlightEvent Obj)

/-- The events in the log (newest entry first) since `uid` was last popped,
    oldest event first. -/
def since (uid : String) : List (LogEntry Obj) → List (InFlightEvent Obj)
  | [] => []
  | .popped u :: log => if u = uid then [] else since uid log
  | .recorded e :: log => since uid log ++ [e]

/-! ### The in-flight data -/

/-- The in-flight part of `Inner`. -/
structure Flight (Obj : Type) where
  pods : AList (fun _ : String => Nat)
  events : List (InFlightEntry Obj)
  next_seq : Nat

namespace Flight

def record (f : Flight Obj) (event : InFlightEvent Obj) : Flight Obj :=
  { f with
    next_seq := f.next_seq + 1
    events := f.events ++ [.event f.next_seq event] }

def start (f : Flight Obj) (pod : Pod) : Flight Obj where
  next_seq := f.next_seq + 1
  events := f.events ++ [.pod f.next_seq pod]
  pods := f.pods.insert pod.uid f.next_seq

/-- The pod with the entry `seq` is done. -/
def done (f : Flight Obj) (uid : String) (seq : Nat) : Flight Obj :=
  { f with
    pods := f.pods.erase uid
    events := (f.events.eraseP fun e => e.seq == seq).dropWhile fun e => !e.is_pod }

variable (f : Flight Obj) (pod : Pod)

theorem start_events : (f.start pod).events = f.events ++ [.pod f.next_seq pod] := rfl

theorem start_pods : (f.start pod).pods = f.pods.insert pod.uid f.next_seq := rfl

end Flight

def InFlightEntry.payload : InFlightEntry Obj → Option (InFlightEvent Obj)
  | .event _ e => some e
  | .pod _ _ => none

/-- The events after `seq`. -/
def events_after (seq : Nat) (events : List (InFlightEntry Obj)) : List (InFlightEvent Obj) :=
  (events.filter fun e => decide (e.seq > seq)).filterMap InFlightEntry.payload

/-- The `seq`s of the entries for the pod `uid`. -/
def pod_entries (uid : String) (events : List (InFlightEntry Obj)) : List Nat :=
  events.filterMap fun e =>
    match e with
    | .pod seq pod => if pod.uid = uid then some seq else none
    | .event _ _ => none

/-! ### The invariant -/

/-- The in-flight data agree with the log. -/
structure Tracks (f : Flight Obj) (log : List (LogEntry Obj)) : Prop where
  increasing : f.events.Pairwise (fun a b => a.seq < b.seq)
  below : ∀ e ∈ f.events, e.seq < f.next_seq
  entries : ∀ uid seq, f.pods.lookup uid = some seq ↔
    ∃ pod, .pod seq pod ∈ f.events ∧ pod.uid = uid
  head : ∀ e, f.events.head? = some e → e.is_pod = true
  complete : ∀ uid seq, f.pods.lookup uid = some seq →
    events_after seq f.events = since uid log

variable {events : List (InFlightEntry Obj)}

/-- Entries with one `seq` are one entry. -/
theorem eq_of_seq_eq (h : events.Pairwise (fun a b => a.seq < b.seq)) {a b : InFlightEntry Obj}
    (ha : a ∈ events) (hb : b ∈ events) (hseq : a.seq = b.seq) : a = b := by
  by_contra hne
  have hpair : events.Pairwise (fun a b => a.seq ≠ b.seq) := h.imp fun hlt => Nat.ne_of_lt hlt
  have hsymm : Std.Symm (fun a b : InFlightEntry Obj => a.seq ≠ b.seq) := ⟨fun _ _ => Ne.symm⟩
  exact hpair.forall ha hb hne hseq

variable {seq : Nat}

theorem events_after_append (seq : Nat) (events events' : List (InFlightEntry Obj)) :
    events_after seq (events ++ events') = events_after seq events ++ events_after seq events' := by
  unfold events_after
  rw [filter_append, filterMap_append]

theorem events_after_event {n : Nat} (e : InFlightEvent Obj) (hn : seq < n) :
    events_after seq [.event n e] = [e] := by
  simp [events_after, InFlightEntry.seq, hn, InFlightEntry.payload]

theorem events_after_pod (seq n : Nat) (pod : Pod) :
    events_after seq [(.pod n pod : InFlightEntry Obj)] = [] := by
  by_cases hn : seq < n <;> simp [events_after, InFlightEntry.seq, hn, InFlightEntry.payload]

/-- Nothing comes after the last `seq`. -/
theorem events_after_eq_nil (h : ∀ e ∈ events, e.seq ≤ seq) : events_after seq events = [] := by
  unfold events_after
  have hfilter : events.filter (fun e => decide (e.seq > seq)) = [] := by
    rw [filter_eq_nil_iff]
    intro e he
    have hle := h e he
    simp only [decide_eq_true_eq]
    omega
  rw [hfilter]
  rfl

namespace Tracks

variable {f : Flight Obj} {log : List (LogEntry Obj)} (h : Tracks f log)
include h

theorem seq_lt {uid : String}
    (hseq : f.pods.lookup uid = some seq) : seq < f.next_seq := by
  obtain ⟨pod, hmem, _⟩ := (h.entries uid seq).mp hseq
  exact h.below _ hmem

theorem append_increasing {e : InFlightEntry Obj} (he : e.seq = f.next_seq) :
    (f.events ++ [e]).Pairwise (fun a b => a.seq < b.seq) := by
  rw [pairwise_append]
  refine ⟨h.increasing, pairwise_singleton _ _, fun a ha b hb => ?_⟩
  rw [mem_singleton.mp hb, he]
  exact h.below a ha

theorem append_below {e : InFlightEntry Obj} (he : e.seq = f.next_seq) :
    ∀ a ∈ f.events ++ [e], a.seq < f.next_seq + 1 := by
  refine forall_mem_append.mpr ⟨fun a ha => Nat.lt_succ_of_lt (h.below a ha), ?_⟩
  exact forall_mem_singleton.mpr (he ▸ Nat.lt_succ_self _)

theorem record (event : InFlightEvent Obj) {uid₀ : String} (hsome : uid₀ ∈ f.pods) :
    Tracks (f.record event) (.recorded event :: log) where
  increasing := h.append_increasing rfl
  below := h.append_below rfl
  entries := by
    intro uid seq
    rw [show (f.record event).pods = f.pods from rfl, h.entries uid seq]
    refine exists_congr fun pod => and_congr_left fun _ => ?_
    simp [Flight.record]
  head := by
    -- the list was not empty, so it keeps its head
    intro e he
    obtain ⟨seq₀, hseq₀⟩ := Option.isSome_iff_exists.mp (lookup_isSome.mpr hsome)
    obtain ⟨pod₀, hmem, _⟩ := (h.entries uid₀ seq₀).mp hseq₀
    refine h.head e ?_
    rw [← he]
    exact (head?_append_of_ne_nil _ (ne_nil_of_mem hmem)).symm
  complete := by
    intro uid seq hseq
    rw [show (f.record event).events = f.events ++ [.event f.next_seq event] from rfl,
      events_after_append, events_after_event _ (h.seq_lt hseq), h.complete uid seq hseq]
    rfl

theorem start (pod : Pod) (hnew : pod.uid ∉ f.pods) :
    Tracks (f.start pod) (.popped pod.uid :: log) where
  increasing := h.append_increasing rfl
  below := h.append_below rfl
  entries := by
    intro uid seq
    have hold : ∀ pod', .pod seq pod' ∈ (f.start pod).events ↔
        .pod seq pod' ∈ f.events ∨ (seq = f.next_seq ∧ pod' = pod) := by
      intro pod'
      simp [Flight.start]
    simp only [hold, Flight.start_pods, Table.lookup_insert_eq_some, h.entries]
    constructor
    · rintro (⟨rfl, rfl⟩ | ⟨-, pod', hmem, hu⟩)
      · exact ⟨pod, .inr ⟨rfl, rfl⟩, rfl⟩
      · exact ⟨pod', .inl hmem, hu⟩
    · rintro ⟨pod', hmem | ⟨rfl, rfl⟩, rfl⟩
      · -- an older entry for the uid of `pod` would mean it is in flight
        refine .inr ⟨fun huid => ?_, pod', hmem, rfl⟩
        have hlook := (h.entries pod'.uid seq).mpr ⟨pod', hmem, rfl⟩
        exact hnew (huid ▸ lookup_isSome.mp (by rw [hlook]; rfl))
      · exact .inl ⟨rfl, rfl⟩
  head := by
    intro e he
    rw [Flight.start_events, head?_append, Option.or_eq_some_iff] at he
    rcases he with he | ⟨-, he⟩
    · exact h.head e he
    · cases he
      rfl
  complete := by
    intro uid seq hseq
    rw [Flight.start_events, events_after_append, events_after_pod, append_nil]
    obtain ⟨rfl, rfl⟩ | ⟨huid, hseq⟩ := Table.lookup_insert_eq_some.mp hseq
    · rw [since, if_pos rfl]
      exact events_after_eq_nil fun e he => Nat.le_of_lt (h.below e he)
    · rw [since, if_neg (Ne.symm huid)]
      exact h.complete uid seq hseq

end Tracks

/-! ### Pruning -/

theorem events_after_eraseP (seq n : Nat) (h : ∀ e ∈ events, e.seq = n → e.is_pod = true) :
    events_after seq (events.eraseP fun e => e.seq == n) = events_after seq events := by
  rcases exists_or_eq_self_of_eraseP (fun e => e.seq == n) events with
    heq | ⟨e, before, after, _, he, hsplit, heq⟩
  · rw [heq]
  · rw [heq, hsplit, events_after_append, events_after_append, ← singleton_append,
      events_after_append]
    cases e with
    | event m ev => cases h (.event m ev) (by simp [hsplit]) (by simpa using he)
    | pod m pod => rw [events_after_pod, nil_append]

theorem mem_dropWhile_of_is_pod {e : InFlightEntry Obj} (hmem : e ∈ events) (hpod : e.is_pod = true) :
    e ∈ events.dropWhile fun e => !e.is_pod := by
  rw [← takeWhile_append_dropWhile (p := fun e => !e.is_pod) (l := events),
    mem_append] at hmem
  refine hmem.resolve_left fun hbefore => ?_
  have hnot := all_eq_true.mp all_takeWhile e hbefore
  simp [hpod] at hnot

/-- The events before the first popped pod are older than any pod in the list,
    so dropping them takes nothing away from it. -/
theorem events_after_dropWhile {pod : Pod} (hinc : events.Pairwise (fun a b => a.seq < b.seq))
    (hmem : .pod seq pod ∈ events) :
    events_after seq (events.dropWhile fun e => !e.is_pod) = events_after seq events := by
  have hkept := mem_dropWhile_of_is_pod hmem rfl
  have hsplit := takeWhile_append_dropWhile (p := fun e => !e.is_pod) (l := events)
  rw [← hsplit, pairwise_append] at hinc
  have hbefore : events_after seq (events.takeWhile fun e => !e.is_pod) = [] :=
    events_after_eq_nil fun e he => Nat.le_of_lt (hinc.2.2 e he _ hkept)
  conv_rhs => rw [← hsplit, events_after_append, hbefore, nil_append]

namespace Tracks

variable {f : Flight Obj} {log : List (LogEntry Obj)} {uid : String} {seq : Nat}
  (h : Tracks f log) (hseq : f.pods.lookup uid = some seq)
include h hseq

/-- The only entry with a pod's `seq` is the pod's own. -/
theorem own {e : InFlightEntry Obj} (he : e ∈ f.events) (heseq : e.seq = seq) :
    ∃ pod, e = .pod seq pod ∧ pod.uid = uid := by
  obtain ⟨pod, hmem, hu⟩ := (h.entries uid seq).mp hseq
  exact ⟨pod, eq_of_seq_eq h.increasing he hmem heseq, hu⟩

/-- Once a pod is done its `seq` is in no entry. -/
theorem seq_ne_of_mem_done {e : InFlightEntry Obj} (he : e ∈ (f.done uid seq).events) :
    e.seq ≠ seq := by
  have hmem : e ∈ f.events.eraseP fun e => e.seq == seq := (dropWhile_sublist _).mem he
  obtain ⟨pod, hpod, _⟩ := (h.entries uid seq).mp hseq
  obtain ⟨a, before, after, hbefore, ha, hsplit, herase⟩ :=
    exists_of_eraseP (p := fun e => e.seq == seq) hpod (by simp [InFlightEntry.seq])
  have haseq : a.seq = seq := by simpa using ha
  rw [herase] at hmem
  intro heseq
  rcases mem_append.mp hmem with hm | hm
  · exact hbefore e hm (by simpa using heseq)
  · -- what follows the erased entry is larger
    have hinc := h.increasing
    rw [hsplit, pairwise_append] at hinc
    have hlt := (pairwise_cons.mp hinc.2.1).1 e hm
    omega

theorem mem_eraseP_of_ne {seq' : Nat} {pod : Pod} (hmem : .pod seq' pod ∈ f.events)
    (hne : pod.uid ≠ uid) :
    .pod seq' pod ∈ f.events.eraseP fun e => e.seq == seq := by
  refine (mem_eraseP_of_neg ?_).mpr hmem
  intro heq
  obtain ⟨pod', he, hu'⟩ := h.own hseq hmem (by simpa using heq)
  obtain ⟨_, rfl⟩ := InFlightEntry.pod.inj he
  exact hne hu'

theorem done : Tracks (f.done uid seq) log := by
  have hsub : (f.done uid seq).events.Sublist f.events :=
    (dropWhile_sublist _).trans eraseP_sublist
  have hpods : (f.done uid seq).pods = f.pods.erase uid := rfl
  have hevents : (f.done uid seq).events =
    (f.events.eraseP fun e => e.seq == seq).dropWhile fun e => !e.is_pod := rfl
  refine ⟨h.increasing.sublist hsub, fun e he => h.below e (hsub.mem he), ?_, ?_, ?_⟩
  · intro uid' seq'
    rw [hpods, Table.lookup_erase_eq_some, h.entries uid' seq']
    constructor
    · rintro ⟨huid, pod, hmem, hu⟩
      exact ⟨pod, mem_dropWhile_of_is_pod (h.mem_eraseP_of_ne hseq hmem (hu ▸ huid)) rfl, hu⟩
    · rintro ⟨pod, hmem, hu⟩
      have hentry : ∃ pod, .pod seq' pod ∈ f.events ∧ pod.uid = uid' := ⟨pod, hsub.mem hmem, hu⟩
      refine ⟨?_, hentry⟩
      rintro rfl
      have hlook := (h.entries uid' seq').mpr hentry
      rw [hseq] at hlook
      exact absurd (Option.some.inj hlook).symm (h.seq_ne_of_mem_done hseq hmem)
  · intro e he
    have hnot := head?_dropWhile_not (fun e : InFlightEntry Obj => !e.is_pod)
      (f.events.eraseP fun e => e.seq == seq)
    rw [← hevents, he] at hnot
    simpa using hnot
  · intro uid' seq' hlook
    obtain ⟨huid, hlook⟩ := Table.lookup_erase_eq_some.mp hlook
    obtain ⟨pod, hmem, hu⟩ := (h.entries uid' seq').mp hlook
    have hkept := h.mem_eraseP_of_ne hseq hmem (hu ▸ huid)
    rw [← h.complete uid' seq' hlook, hevents,
      events_after_dropWhile (h.increasing.sublist eraseP_sublist) hkept,
      events_after_eraseP]
    intro e he heseq
    obtain ⟨pod', rfl, _⟩ := h.own hseq he heseq
    rfl

end Tracks

/-! ### Calls on the in-flight data -/

variable {q : PriorityQueue Obj}

namespace Inner

def flight (inner : Inner q) : Flight Obj :=
  ⟨inner.in_flight_pods, inner.in_flight_events, inner.next_seq⟩

variable (fuel : Nat) (inner : Inner q) (pod : Pod) (old_pod : Option Pod) (new_pod : Pod)
  (events : List ClusterEvent) (now : SystemTime) (p_info : QueuedPodInfo)

@[simp] theorem flight_record (event : InFlightEvent Obj) :
    (inner.record event).flight = inner.flight.record event := rfl

@[simp] theorem flight_move_to_active_q (event : String) (moves : Bool) (now : SystemTime) :
    (inner.move_to_active_q p_info event moves now).1.flight = inner.flight := by
  unfold move_to_active_q
  simp only
  split_ifs <;> rfl

@[simp] theorem flight_move_to_backoff_q :
    (inner.move_to_backoff_q p_info).1.flight = inner.flight := by
  unfold move_to_backoff_q
  simp only
  split_ifs <;> rfl

@[simp] theorem flight_requeue (strategy : QueueingStrategy) (event : String) (now : SystemTime) :
    (inner.requeue_pod_with_queueing_strategy p_info strategy event now).1.flight =
      inner.flight := by
  unfold requeue_pod_with_queueing_strategy
  split_ifs
  · rfl
  · exact flight_move_to_backoff_q _ _
  · exact flight_move_to_active_q _ _ _ _ _

@[simp] theorem flight_activate_one : (inner.activate_one pod now).1.flight = inner.flight := by
  unfold activate_one
  split
  · exact flight_move_to_active_q _ _ _ _ _
  · split
    · rfl
    · exact flight_move_to_active_q _ _ _ _ _

@[simp] theorem flight_update_loop (events : List ClusterEvent) (inner : Inner q) :
    (update_loop old_pod new_pod now events inner).flight = inner.flight := by
  induction events generalizing inner with
  | nil => rfl
  | cons evt rest ih =>
    unfold update_loop
    split
    · rfl
    · rename_i p_info _
      -- what the requeue starts from differs only in `unschedulable_pods`
      have hrequeue : ∀ (strategy : QueueingStrategy) (inner' : Inner q),
          inner'.flight = inner.flight →
          (inner'.requeue_pod_with_queueing_strategy p_info strategy evt.label now).1.flight =
            inner.flight := fun strategy inner' h => (flight_requeue _ _ _ _ _).trans h
      simp only
      split
      · rename_i inner' heq
        rw [ih, ← congrArg (fun r => r.1.flight) heq]
        exact hrequeue _ _ (by split_ifs <;> rfl)
      · rename_i inner' _ _ heq
        rw [← congrArg (fun r => r.1.flight) heq]
        exact hrequeue _ _ (by split_ifs <;> rfl)

@[simp] theorem flight_update_queued :
    (inner.update_queued old_pod new_pod events now).flight = inner.flight := by
  have hunsched : (inner.update_unschedulable old_pod new_pod events now).flight =
      inner.flight := by
    unfold update_unschedulable
    split
    · exact flight_update_loop _ _ _ _ _
    · exact flight_move_to_active_q _ _ _ _ _
  unfold update_queued
  split
  · split
    · rfl
    · simp only
      split_ifs
      · rfl
      · exact hunsched
  · exact hunsched

theorem flight_update :
    (inner.update old_pod new_pod now).flight =
      (inner.add_events_if_pod_in_flight old_pod new_pod
        (update_events old_pod new_pod)).1.flight := by
  unfold update
  simp only
  split_ifs
  · rfl
  · exact flight_update_queued _ _ _ _ _

@[simp] theorem flight_delete : (inner.delete pod).flight = inner.flight := by
  unfold delete
  simp only
  split
  · rfl
  · split <;> rfl

/-- A loop whose turns leave the in-flight data alone leaves them alone. -/
theorem flight_foldl {α : Type} {turn : Inner q → α → Inner q}
    (hturn : ∀ inner a, (turn inner a).flight = inner.flight) (l : List α) (inner : Inner q) :
    (l.foldl turn inner).flight = inner.flight :=
  foldlRecOn (motive := fun i => i.flight = inner.flight) l turn rfl
    fun i hi a _ => (hturn i a).trans hi

@[simp] theorem flight_flush_backoff_q_completed :
    (inner.flush_backoff_q_completed now).flight = inner.flight :=
  flight_foldl (fun _ _ => flight_move_to_active_q _ _ _ _ _) _ _

theorem flight_move_pod (event : ClusterEvent) (old_obj new_obj : Option (EventObject Obj))
    (now : SystemTime) (p_info : QueuedPodInfo) :
    (inner.move_pod_to_active_or_backoff_queue event old_obj new_obj now p_info).flight =
      inner.flight := by
  unfold move_pod_to_active_or_backoff_queue
  simp only
  split_ifs
  · rfl
  · rfl
  · exact flight_requeue _ _ _ _ _

@[simp] theorem flight_pop_next : inner.pop_next.1.flight = inner.flight := by
  unfold pop_next
  split
  · rfl
  · split <;> rfl

/-- `pop` starts one pod that was not in flight, or none. -/
theorem unlocked_pop_loop_flight :
    ((unlocked_pop_loop fuel inner).2 = none ∧
      (unlocked_pop_loop fuel inner).1.flight = inner.flight) ∨
    ∃ p_info, (unlocked_pop_loop fuel inner).2 = some p_info ∧
      p_info.pod.uid ∉ inner.flight.pods ∧
      (unlocked_pop_loop fuel inner).1.flight = inner.flight.start p_info.pod := by
  induction fuel generalizing inner with
  | zero => exact .inl ⟨rfl, rfl⟩
  | succ fuel ih =>
    have hnext := flight_pop_next inner
    unfold unlocked_pop_loop
    generalize inner.pop_next = r at hnext
    obtain ⟨inner', _ | p_info⟩ := r
    · exact .inl ⟨rfl, hnext⟩
    · rw [← hnext]
      simp only
      split_ifs with hin
      · exact ih inner'
      · exact .inr ⟨_, rfl, hin, rfl⟩

end Inner

/-! ### What the observer sees -/

/-- What is recorded by `activate` (newest first): a forced activation for each
    pod that could not be activated and is in flight. -/
def observe_activate (now : SystemTime) : Inner q → List Pod → List (LogEntry Obj)
  | _, [] => []
  | inner, pod :: rest =>
    observe_activate now (inner.activate_turn now pod) rest ++
      if (inner.activate_one pod now).2 = false ∧ pod.uid ∈ inner.in_flight_pods then
        [.recorded ⟨EVENT_FORCE_ACTIVATE, none, some (.pod pod)⟩]
      else []

def observe_event (inner : Inner q) (event : ClusterEvent)
    (old_obj new_obj : Option (EventObject Obj)) : List (LogEntry Obj) :=
  if q.is_event_of_interest event = true ∧ inner.in_flight_pods.entries ≠ [] then
    [.recorded ⟨event, old_obj, new_obj⟩]
  else []

/-- What a call adds to the log, newest first. -/
def observe (inner : Inner q) : Op Obj → List (LogEntry Obj)
  | .pop => (inner.unlocked_pop.2.map fun p_info => LogEntry.popped p_info.pod.uid).toList
  | .activate pods now => observe_activate now inner pods
  | .update old_pod new_pod _ =>
    if new_pod.uid ∈ inner.in_flight_pods then
      ((Inner.update_events old_pod new_pod).map fun ev =>
        LogEntry.recorded ⟨ev, old_pod.map .pod, some (.pod new_pod)⟩).reverse
    else []
  | .move_all_to_active_or_backoff_queue event old_obj new_obj _ _ _ =>
    observe_event inner event old_obj new_obj
  | .flush_unschedulable_pods_leftover order _ =>
    if order = [] then [] else observe_event inner EVENT_UNSCHEDULABLE_TIMEOUT none none
  | _ => []

def observed (q : PriorityQueue Obj) : System (Inner q × List (LogEntry Obj)) (Op Obj) where
  init := fun s => (priority_queue q).init s.1 ∧ s.2 = []
  step := fun s op s' => (priority_queue q).step s.1 op s'.1 ∧ s'.2 = observe s.1 op ++ s.2

/-! ### Every call keeps the invariant -/

namespace Tracks

variable {inner : Inner q} {log : List (LogEntry Obj)}

section operations

variable (h : Tracks inner.flight log)

include h

theorem record_all {uid : String} (hin : uid ∈ inner.in_flight_pods)
    (events : List (InFlightEvent Obj)) :
    Tracks (events.foldl Inner.record inner).flight
      ((events.map LogEntry.recorded).reverse ++ log) := by
  induction events generalizing inner log with
  | nil => exact h
  | cons e rest ih =>
    have hnext : Tracks (inner.record e).flight (.recorded e :: log) := h.record e hin
    have hrest := ih hnext hin
    rw [map_cons, reverse_cons, append_assoc]
    exact hrest

theorem add_events_if_pod_in_flight (old_pod : Option Pod) (new_pod : Pod)
    (events : List ClusterEvent) :
    Tracks (inner.add_events_if_pod_in_flight old_pod new_pod events).1.flight
      ((if new_pod.uid ∈ inner.in_flight_pods then
        (events.map fun ev =>
          LogEntry.recorded ⟨ev, old_pod.map .pod, some (.pod new_pod)⟩).reverse
        else []) ++ log) := by
  unfold Inner.add_events_if_pod_in_flight
  split_ifs with hin
  · have hall := h.record_all hin
      (events.map fun ev => ⟨ev, old_pod.map .pod, some (.pod new_pod)⟩)
    rwa [map_map] at hall
  · exact h

theorem unlocked_done (uid : String) : Tracks (inner.unlocked_done uid).flight log := by
  unfold Inner.unlocked_done
  split
  · exact h
  · rename_i seq hseq
    exact h.done hseq

theorem activate_turn (pod : Pod) (now : SystemTime) :
    Tracks (inner.activate_turn now pod).flight
      ((if (inner.activate_one pod now).2 = false ∧ pod.uid ∈ inner.in_flight_pods then
        [.recorded ⟨EVENT_FORCE_ACTIVATE, none, some (.pod pod)⟩]
        else []) ++ log) := by
  have hflight := Inner.flight_activate_one inner pod now
  have hmem : pod.uid ∈ (inner.activate_one pod now).1.in_flight_pods ↔
      pod.uid ∈ inner.in_flight_pods := by
    rw [show (inner.activate_one pod now).1.in_flight_pods =
      (inner.activate_one pod now).1.flight.pods from rfl, hflight]
    rfl
  rw [← hflight] at h
  unfold Inner.activate_turn
  cases hok : (inner.activate_one pod now).2 with
  | true => simpa [hok] using h
  | false =>
    have hadd := h.add_events_if_pod_in_flight none pod [EVENT_FORCE_ACTIVATE]
    simpa [hok, hmem] using hadd

theorem activate (pods : List Pod) (now : SystemTime) :
    Tracks (inner.activate pods now).flight (observe_activate now inner pods ++ log) := by
  unfold Inner.activate
  induction pods generalizing inner log with
  | nil => exact h
  | cons pod rest ih =>
    rw [foldl_cons, observe_activate, append_assoc]
    exact ih (h.activate_turn pod now)

theorem move_pods (order : List QueuedPodInfo) (event : ClusterEvent)
    (old_obj new_obj : Option (EventObject Obj)) (now : SystemTime) :
    Tracks (inner.move_pods_to_active_or_backoff_queue order event old_obj new_obj now).flight
      (observe_event inner event old_obj new_obj ++ log) := by
  unfold Inner.move_pods_to_active_or_backoff_queue observe_event
  by_cases hint : q.is_event_of_interest event = true
  · have hloop := Inner.flight_foldl
      (fun inner p => Inner.flight_move_pod inner event old_obj new_obj now p) order inner
    simp only [hint, if_true, true_and]
    generalize order.foldl _ inner = inner' at hloop ⊢
    have hpods : inner'.in_flight_pods = inner.in_flight_pods := congrArg Flight.pods hloop
    rw [← hloop] at h
    unfold Inner.add_event_if_any_in_flight
    rw [hpods]
    cases hent : inner.in_flight_pods.entries with
    | nil => simpa using h
    | cons e rest =>
      -- somebody is in flight, so the event is recorded
      have hin : e.1 ∈ inner'.in_flight_pods := by
        rw [hpods, AList.mem_keys, AList.keys, hent]
        exact .head _
      simpa using h.record ⟨event, old_obj, new_obj⟩ hin
  · simpa [hint] using h

theorem close (order : List String) : Tracks (inner.close order).flight log :=
  foldlRecOn (motive := fun inner : Inner q => Tracks inner.flight log) order Inner.unlocked_done h
    fun _ h uid _ => h.unlocked_done uid

theorem apply (op : Op Obj) : Tracks (op.apply inner).flight (observe inner op ++ log) := by
  match op with
  | .add pod now => exact (Inner.flight_move_to_active_q _ _ _ _ _).symm ▸ h
  | .activate pods now => exact h.activate pods now
  | .pop =>
    rcases Inner.unlocked_pop_loop_flight _ inner with ⟨hres, hfl⟩ | ⟨p_info, hres, hnew, hfl⟩
    · rw [observe, show inner.unlocked_pop.2 = none from hres]
      exact hfl.symm ▸ h
    · rw [observe, show inner.unlocked_pop.2 = some p_info from hres]
      exact hfl.symm ▸ h.start p_info.pod hnew
  | .done uid => exact h.unlocked_done uid
  | .update old_pod new_pod now =>
    rw [show (Op.update old_pod new_pod now).apply inner = inner.update old_pod new_pod now from rfl,
      Inner.flight_update]
    exact h.add_events_if_pod_in_flight old_pod new_pod _
  | .delete pod => exact (Inner.flight_delete _ _).symm ▸ h
  | .add_unschedulable_if_not_present p_info now =>
    simp only [Op.apply, observe]
    rcases add_unschedulable_cases inner p_info now with ⟨e, heq⟩ | ⟨-, -, heq⟩ <;> rw [heq]
    · exact h.unlocked_done _
    · exact unlocked_done ((Inner.flight_requeue _ _ _ _ _).symm ▸ h) _
  | .move_all_to_active_or_backoff_queue event old_obj new_obj _ order now =>
    simp only [Op.apply, Inner.move_all_to_active_or_backoff_queue, observe]
    split_ifs with hint
    · exact h.move_pods order event old_obj new_obj now
    · simpa [observe_event, hint] using h
  | .flush_backoff_q_completed now =>
    exact (Inner.flight_flush_backoff_q_completed _ _).symm ▸ h
  | .flush_unschedulable_pods_leftover order now =>
    cases order with
    | nil => exact h
    | cons p rest => exact h.move_pods (p :: rest) EVENT_UNSCHEDULABLE_TIMEOUT none none now
  | .add_nominated_pod _ _ | .delete_nominated_pod_if_exists _ => exact h
  | .close order => exact h.close order

end operations

end Tracks

theorem reachable_tracks {s : Inner q × List (LogEntry Obj)} (h : Reachable (observed q) s) :
    Tracks s.1.flight s.2 := by
  refine Reachable.invariant (I := fun s => Tracks s.1.flight s.2) ?_ ?_ h
  · rintro ⟨inner, log⟩ ⟨⟨pod_lister, rfl⟩, rfl⟩
    refine ⟨Pairwise.nil, fun e he => absurd he (by simp [Inner.flight, Inner.new]), ?_, ?_, ?_⟩
    all_goals simp [Inner.flight, Inner.new]
  · rintro ⟨inner, log⟩ op ⟨inner', log'⟩ htracks ⟨⟨_, hinner⟩, hlog⟩
    subst hinner hlog
    exact htracks.apply op

/-! ### The main theorem -/

namespace Tracks

variable {inner : Inner q} {log : List (LogEntry Obj)} (h : Tracks inner.flight log)
include h

theorem cluster_events_for_pod {p_info : QueuedPodInfo}
    (hin : p_info.pod.uid ∈ inner.in_flight_pods) :
    inner.cluster_events_for_pod p_info = .ok (since p_info.pod.uid log) := by
  obtain ⟨seq, hseq⟩ := Option.isSome_iff_exists.mp (lookup_isSome.mpr hin)
  have hafter := h.complete _ seq hseq
  unfold Inner.cluster_events_for_pod
  rw [hseq, ← hafter]
  rfl

theorem pod_entries_eq (uid : String) :
    pod_entries uid inner.in_flight_events = (inner.in_flight_pods.lookup uid).toList := by
  have hmem : ∀ seq, seq ∈ pod_entries uid inner.in_flight_events ↔
      inner.in_flight_pods.lookup uid = some seq := by
    intro seq
    refine Iff.trans ?_ (h.entries uid seq).symm
    simp only [pod_entries, mem_filterMap]
    constructor
    · rintro ⟨_ | _, he, hsome⟩
      · rename_i n pod
        simp only [Option.ite_none_right_eq_some, Option.some.injEq] at hsome
        exact ⟨pod, hsome.2 ▸ he, hsome.1⟩
      · cases hsome
    · rintro ⟨pod, he, hu⟩
      exact ⟨_, he, by simp [hu]⟩
  have hinc : (pod_entries uid inner.in_flight_events).Pairwise (· < ·) := by
    refine Pairwise.filterMap _ ?_ h.increasing
    rintro (⟨n, pod⟩ | ⟨n, e⟩) (⟨n', pod'⟩ | ⟨n', e'⟩) hlt <;>
      simp [InFlightEntry.seq] at hlt ⊢
    intro _ _
    exact hlt
  cases hlook : inner.in_flight_pods.lookup uid with
  | none =>
    refine eq_nil_iff_forall_not_mem.mpr fun seq hseq => ?_
    rw [hmem, hlook] at hseq
    cases hseq
  | some seq =>
    refine perm_singleton.mp ((perm_ext_iff_of_nodup hinc.nodup
      (nodup_singleton seq)).mpr fun n => ?_)
    rw [hmem, hlook, mem_singleton, Option.some.injEq, eq_comm]

theorem first_in_flight {e : InFlightEntry Obj} (he : e ∈ inner.in_flight_events) :
    ∃ uid seq, inner.in_flight_pods.lookup uid = some seq ∧ (e.is_pod = true ∨ seq < e.seq) := by
  have hhead := h.head
  have hinc := h.increasing
  have hentries := h.entries
  simp only [Inner.flight] at hhead hinc hentries
  cases hl : inner.in_flight_events with
  | nil =>
    rw [hl] at he
    cases he
  | cons first rest =>
    rw [hl] at he hhead hinc hentries
    have hpod := hhead first rfl
    cases first with
    | event n ev => cases hpod
    | pod n pod =>
      refine ⟨pod.uid, n, (hentries pod.uid n).mpr ⟨pod, .head _, rfl⟩, ?_⟩
      rcases mem_cons.mp he with rfl | hrest
      · exact .inl rfl
      · exact .inr ((pairwise_cons.mp hinc).1 e hrest)

end Tracks

/-- In every run, whoever is in flight: a pod in flight is told exactly the
    events recorded since it was popped, in order; the entries are strictly
    increasing; each pod in flight has one entry, with the `seq` stored for it,
    and no other pod has one; the list is empty when nothing is in flight and
    else starts with a pod; a pod that is done takes no event from another; and
    every event kept is one that a pod in flight is told. -/
theorem in_flight_events_exact (q : PriorityQueue Obj) (inner : Inner q)
    (log : List (LogEntry Obj)) (h : Reachable (observed q) (inner, log)) :
    (∀ p_info : QueuedPodInfo, p_info.pod.uid ∈ inner.in_flight_pods →
      inner.cluster_events_for_pod p_info = .ok (since p_info.pod.uid log)) ∧
    inner.in_flight_events.Pairwise (fun a b => a.seq < b.seq) ∧
    (∀ uid, pod_entries uid inner.in_flight_events = (inner.in_flight_pods.lookup uid).toList) ∧
    (inner.in_flight_pods.keys = [] → inner.in_flight_events = []) ∧
    (∀ e, inner.in_flight_events.head? = some e → e.is_pod = true) ∧
    (∀ uid (p_info : QueuedPodInfo), p_info.pod.uid ≠ uid →
      p_info.pod.uid ∈ inner.in_flight_pods →
      (inner.unlocked_done uid).cluster_events_for_pod p_info =
        inner.cluster_events_for_pod p_info) ∧
    ∀ seq event, .event seq event ∈ inner.in_flight_events →
      ∃ uid seq', inner.in_flight_pods.lookup uid = some seq' ∧ seq' < seq := by
  have htracks : Tracks inner.flight log := reachable_tracks h
  refine ⟨fun p_info hin => htracks.cluster_events_for_pod hin, htracks.increasing,
    htracks.pod_entries_eq, ?_, htracks.head, ?_, ?_⟩
  · intro hnone
    by_contra hne
    obtain ⟨e, he⟩ := exists_mem_of_ne_nil _ hne
    obtain ⟨uid, seq, hlook, _⟩ := htracks.first_in_flight he
    have hin : uid ∈ inner.in_flight_pods.keys :=
      mem_keys.mp (lookup_isSome.mp (by rw [hlook]; rfl))
    rw [hnone] at hin
    cases hin
  · intro uid p_info hne hin
    have hin' : p_info.pod.uid ∈ (inner.unlocked_done uid).in_flight_pods := by
      unfold Inner.unlocked_done
      split
      · exact hin
      · exact mem_erase.mpr ⟨hne, hin⟩
    rw [htracks.cluster_events_for_pod hin,
      (htracks.unlocked_done uid).cluster_events_for_pod hin']
  · intro seq event hmem
    obtain ⟨uid, seq', hlook, hpod | hlt⟩ := htracks.first_in_flight hmem
    · cases hpod
    · exact ⟨uid, seq', hlook, hlt⟩

theorem observed_call {ops : List (Op Obj)} {inner : Inner q} {log : List (LogEntry Obj)}
    (h : Exec (observed q) ops (inner, log)) (op : Op Obj) (hop : op.enabled inner) :
    Exec (observed q) (op :: ops) (op.apply inner, observe inner op ++ log) :=
  .step h ⟨⟨hop, rfl⟩, rfl⟩

def batch_pod (name uid : String) : Pod :=
  { bare_pod name uid with scheduler_name := some "batch" }

/-- Two pods in flight, an event before and one after the second is popped: when
    the first is done the second is told the later one only. -/
theorem in_flight_events_exact_two_pods :
    ∃ (inner : Inner gating_queue) (log : List (LogEntry Unit)),
      Reachable (observed gating_queue) (inner, log) ∧
      inner.cluster_events_for_pod (.for_lookup (batch_pod "db" "u2")) =
        .ok [⟨EVENT_FORCE_ACTIVATE, none, some (.pod (batch_pod "db" "u2"))⟩] := by
  have hinit : Exec (observed gating_queue) [] (Inner.new gating_queue none, []) :=
    .init ⟨⟨none, rfl⟩, rfl⟩
  have hadd := observed_call (observed_call hinit (.add (batch_pod "web" "u1") 1) trivial)
    (.add (batch_pod "db" "u2") 2) trivial
  have hfirst := observed_call (observed_call hadd .pop (.inl (by decide)))
    (.activate [batch_pod "web" "u1"] 3) trivial
  have hsecond := observed_call (observed_call hfirst .pop (.inl (by decide)))
    (.activate [batch_pod "db" "u2"] 4) trivial
  have hdone := observed_call hsecond (.done "u1") trivial
  refine ⟨_, _, ⟨_, hdone⟩, ?_⟩
  exact (in_flight_events_exact gating_queue _ _ ⟨_, hdone⟩).1
    (.for_lookup (batch_pod "db" "u2")) (by decide)

end Scheduler
