import Rusternetes.Scheduler.Operations

/-! # The Scheduling Queue: Partition

    Every pod key is held by at most one of activeQ, the two backoff heaps and
    the unschedulable pods, and only `pop` and `delete` take a key out of the
    queue.

    ## Proof sketch

    `places inner k` says which of the four hold `k`. Every helper that moves
    a pod *places* it: afterwards its key is held exactly once, and every other
    key is held where it was (`Placed`). The functions are sequences of
    placements, so partition and "nothing lost" follow for all of them at
    once.
-/

open Framework LTS List

namespace Scheduler

variable {Obj : Type} {q : PriorityQueue Obj}

/-! ### Which containers hold a key -/

/-- The containers that hold one key. -/
structure Places where
  active : Bool
  backoff : Bool
  error : Bool
  unschedulable : Bool
  deriving DecidableEq

/-- How many containers hold the key. -/
def Places.count (p : Places) : Nat :=
  p.active.toNat + p.backoff.toNat + p.error.toNat + p.unschedulable.toNat

theorem Places.count_ne_zero_iff (p : Places) :
    p.count ≠ 0 ↔
      p.active = true ∨ p.backoff = true ∨ p.error = true ∨ p.unschedulable = true := by
  obtain ⟨a, b, e, u⟩ := p
  cases a <;> cases b <;> cases e <;> cases u <;> simp [Places.count]

def UnschedulablePods.has_key (u : UnschedulablePods) (k : String) : Bool :=
  (u.pod_info_map.lookup k).isSome

/-- The containers of the queue that hold the key `k`. -/
def Inner.places (inner : Inner q) (k : String) : Places where
  active := inner.active_q.has_key k
  backoff := inner.backoff_q.pod_backoff_q.has_key k
  error := inner.backoff_q.pod_error_backoff_q.has_key k
  unschedulable := inner.unschedulable_pods.has_key k

/-- Some container holds the key. -/
def Inner.held (inner : Inner q) (k : String) : Prop := (inner.places k).count ≠ 0

instance (inner : Inner q) (k : String) : Decidable (inner.held k) :=
  inferInstanceAs (Decidable ((inner.places k).count ≠ 0))

/-- Every key is held at most once. -/
def Partition (inner : Inner q) : Prop := ∀ k, (inner.places k).count ≤ 1

/-! ### The containers, key by key -/

variable {K T : Type} {key_fn : T → K} {less_fn : T → T → Bool}

theorem Heap.has_key_add_or_update [DecidableEq K] (h : Heap key_fn less_fn) (x : T) (k : K) :
    (h.add_or_update x).has_key k = if k = key_fn x then true else h.has_key k := by
  unfold Heap.has_key
  rw [Heap.get_by_key_add_or_update]
  split_ifs <;> rfl

theorem Heap.has_key_delete_by_key [DecidableEq K] (h : Heap key_fn less_fn) (key k : K) :
    (h.delete_by_key key).1.has_key k = if k = key then false else h.has_key k := by
  unfold Heap.has_key
  rw [Heap.get_by_key_delete_by_key]
  split_ifs <;> rfl

theorem Heap.has_key_of_pop [DecidableEq K] (h : Heap key_fn less_fn) {k : K}
    (hk : h.pop.1.has_key k = true) : h.has_key k = true := by
  rcases h.pop_cases with ⟨_, hpop⟩ | ⟨p, _, _, hkeys, _⟩
  · rwa [hpop] at hk
  · unfold Heap.has_key at hk ⊢
    rw [hkeys k] at hk
    split_ifs at hk
    · cases hk
    · exact hk

theorem UnschedulablePods.has_key_add_or_update (u : UnschedulablePods) (p : QueuedPodInfo)
    (k : String) : (u.add_or_update p).has_key k = if k = p.key then true else u.has_key k := by
  unfold UnschedulablePods.has_key UnschedulablePods.add_or_update
  rw [Table.lookup_insert_ite]
  split_ifs <;> rfl

theorem UnschedulablePods.has_key_delete (u : UnschedulablePods) (pod : Pod) (k : String) :
    (u.delete pod).has_key k = if k = pod_key pod then false else u.has_key k := by
  unfold UnschedulablePods.has_key UnschedulablePods.delete
  rw [Table.lookup_erase_ite]
  split_ifs <;> rfl

theorem Heap.delete_cases [DecidableEq K] (h : Heap key_fn less_fn) (x : T) :
    (h.has_key (key_fn x) = false ∧ h.delete x = (h, .error "object not found")) ∨
    ∃ y, key_fn y = key_fn x ∧ h.has_key (key_fn x) = true ∧ h.delete x = ((h.delete x).1, .ok y) := by
  unfold Heap.has_key
  cases hx : h.get_by_key (key_fn x) with
  | none => exact .inl ⟨rfl, h.delete_by_key_none hx⟩
  | some y =>
    exact .inr ⟨y, h.keyed _ y hx, rfl, Prod.ext rfl (h.delete_by_key_some hx)⟩

theorem BackoffQueue.take_cases (b : BackoffQueue q) (lookup : QueuedPodInfo) :
    (b.pod_backoff_q.has_key lookup.key = false ∧
      b.pod_error_backoff_q.has_key lookup.key = false ∧ b.take lookup = (b, none)) ∨
    (∃ p, p.key = lookup.key ∧ b.pod_backoff_q.has_key lookup.key = true ∧
      b.take lookup =
        ({ b with pod_backoff_q := (b.pod_backoff_q.delete lookup).1 }, some p)) ∨
    (∃ p, p.key = lookup.key ∧ b.pod_backoff_q.has_key lookup.key = false ∧
      b.pod_error_backoff_q.has_key lookup.key = true ∧
      b.take lookup =
        ({ b with pod_error_backoff_q := (b.pod_error_backoff_q.delete lookup).1 }, some p)) := by
  unfold take
  rcases b.pod_backoff_q.delete_cases lookup with ⟨hb, hdel⟩ | ⟨p, hp, hb, hdel⟩ <;> rw [hdel]
  · rcases b.pod_error_backoff_q.delete_cases lookup with ⟨he, hdel'⟩ | ⟨p, hp, he, hdel'⟩ <;>
      rw [hdel']
    · exact .inl ⟨hb, he, rfl⟩
    · exact .inr (.inr ⟨p, hp, hb, he, rfl⟩)
  · exact .inr (.inl ⟨p, hp, hb, rfl⟩)

/-! ### Placing a pod -/

/-- From `inner` to `inner'` the key `key` is placed: it is now held exactly
    once, and every other key is held where it was. -/
structure Placed (inner inner' : Inner q) (key : String) : Prop where
  others : ∀ k, k ≠ key → inner'.places k = inner.places k
  once : (inner'.places key).count = 1

variable {inner inner' : Inner q} {key : String} {p_info : QueuedPodInfo} {now : SystemTime}

theorem Placed.partition (h : Placed inner inner' key) (hp : Partition inner) :
    Partition inner' := by
  intro k
  by_cases hk : k = key
  · rw [hk, h.once]
  · rw [h.others k hk]
    exact hp k

theorem Placed.held_iff (h : Placed inner inner' key) (k : String) :
    inner'.held k ↔ k = key ∨ inner.held k := by
  unfold Inner.held
  by_cases hk : k = key
  · subst hk
    rw [h.once]
    simp
  · rw [h.others k hk]
    simp [hk]

/-- The key is in none of the three heaps. -/
def unqueued (inner : Inner q) (key : String) : Prop :=
  inner.active_q.has_key key = false ∧ inner.backoff_q.pod_backoff_q.has_key key = false ∧
    inner.backoff_q.pod_error_backoff_q.has_key key = false

/-- A key in `unschedulable_pods` is in none of the heaps. -/
theorem Partition.unqueued_of_unschedulable (hp : Partition inner)
    (hkey : inner.unschedulable_pods.has_key key = true) : unqueued inner key := by
  have hcount := hp key
  unfold Inner.places Places.count at hcount
  rw [hkey] at hcount
  refine ⟨?_, ?_, ?_⟩ <;> rw [← Bool.not_eq_true] <;> intro htrue <;> rw [htrue] at hcount <;>
    simp at hcount

theorem placed_unschedulable (hpre : unqueued inner p_info.key)
    (ha : inner'.active_q = inner.active_q) (hb : inner'.backoff_q = inner.backoff_q)
    (hu : inner'.unschedulable_pods = inner.unschedulable_pods.add_or_update p_info) :
    Placed inner inner' p_info.key := by
  refine ⟨fun k hk => ?_, ?_⟩
  · unfold Inner.places
    rw [ha, hb, hu, UnschedulablePods.has_key_add_or_update, if_neg hk]
  · unfold Inner.places Places.count
    rw [ha, hb, hu, UnschedulablePods.has_key_add_or_update, if_pos rfl, hpre.1, hpre.2.1, hpre.2.2]
    rfl

/-! ### PreEnqueue plugins leave the pod itself alone -/

def PreEnqueuePlugin.rejects (pl : PreEnqueuePlugin) (pod : Pod) : Prop :=
  ∃ e, pl.pre_enqueue pod = .error e

def Passes (q : PriorityQueue Obj) (pod : Pod) : Prop :=
  ∀ plugins, q.pre_enqueue_plugin_map.lookup (pod_scheduler_name pod) = some plugins →
    ∀ pl ∈ plugins, ¬ pl.rejects pod

theorem run_pre_enqueue_plugin_spec (pl : PreEnqueuePlugin) (p_info : QueuedPodInfo) :
    (q.run_pre_enqueue_plugin pl p_info).1.pod = p_info.pod ∧
      ((q.run_pre_enqueue_plugin pl p_info).2 = false → pl.rejects p_info.pod) := by
  unfold PriorityQueue.run_pre_enqueue_plugin
  split
  · exact ⟨rfl, nofun⟩
  · next e he => exact ⟨rfl, fun _ => ⟨e, he⟩⟩

theorem pre_enqueue_loop_spec (gating_plugin : String) (plugins : List PreEnqueuePlugin)
    (p_info : QueuedPodInfo) :
    (q.pre_enqueue_loop gating_plugin plugins p_info).1.pod = p_info.pod ∧
      ((q.pre_enqueue_loop gating_plugin plugins p_info).2 = false →
        ∃ pl ∈ plugins, pl.rejects p_info.pod) := by
  induction plugins generalizing p_info with
  | nil => exact ⟨rfl, nofun⟩
  | cons pl rest ih =>
    have hmem : (∃ pl' ∈ rest, pl'.rejects p_info.pod) → ∃ pl' ∈ pl :: rest, pl'.rejects p_info.pod :=
      fun ⟨pl', hpl, h⟩ => ⟨pl', .tail _ hpl, h⟩
    obtain ⟨hpod, hrejects⟩ := run_pre_enqueue_plugin_spec (q := q) pl p_info
    unfold PriorityQueue.pre_enqueue_loop
    simp only
    split_ifs with hskip hpass
    · exact (ih p_info).imp_right fun h hfail => hmem (h hfail)
    · have hrest := ih (q.run_pre_enqueue_plugin pl p_info).1
      rw [hpod] at hrest
      exact hrest.imp_right fun h hfail => hmem (h hfail)
    · exact ⟨hpod, fun hfail => ⟨pl, .head _, hrejects hfail⟩⟩

theorem run_pre_enqueue_plugins_spec (p_info : QueuedPodInfo) :
    (q.run_pre_enqueue_plugins p_info).pod = p_info.pod ∧
      ((q.run_pre_enqueue_plugins p_info).gated = true → ¬ Passes q p_info.pod) := by
  unfold PriorityQueue.run_pre_enqueue_plugins
  cases hlookup : q.pre_enqueue_plugin_map.lookup (pod_scheduler_name p_info.pod) with
  | none => exact ⟨rfl, nofun⟩
  | some plugins =>
    have hno : (∃ pl ∈ plugins, pl.rejects p_info.pod) → ¬ Passes q p_info.pod :=
      fun ⟨pl, hpl, hrejects⟩ h => h plugins hlookup pl hpl hrejects
    simp only
    -- the record after the gating plugin, if one was run
    generalize hfirst : (if p_info.gating_plugin ≠ "" then _ else (p_info, true)) = first
    have hspec : first.1.pod = p_info.pod ∧
        (first.2 = false → ∃ pl ∈ plugins, pl.rejects p_info.pod) := by
      rw [← hfirst]
      split_ifs
      · split
        · next pl hfind =>
          exact (run_pre_enqueue_plugin_spec pl p_info).imp_right fun h hfail =>
            ⟨pl, mem_of_find?_eq_some hfind, h hfail⟩
        · exact ⟨rfl, nofun⟩
      · exact ⟨rfl, nofun⟩
    have hloop := pre_enqueue_loop_spec (q := q) p_info.gating_plugin plugins first.1
    rw [hspec.1] at hloop
    split_ifs with hpass hall
    · exact ⟨hloop.1, nofun⟩
    · exact ⟨hloop.1, fun _ => hno (hloop.2 (by simpa using hall))⟩
    · exact ⟨hspec.1, fun _ => hno (hspec.2 (by simpa using hpass))⟩

theorem run_pre_enqueue_plugins_key (p_info : QueuedPodInfo) :
    (q.run_pre_enqueue_plugins p_info).key = p_info.key := by
  unfold QueuedPodInfo.key
  rw [(run_pre_enqueue_plugins_spec p_info).1]

/-! ### The helpers place the pod -/

/-- A key that is held at most once is not in both backoff heaps, so deleting
    it from the backoff queue leaves it in neither. -/
theorem BackoffQueue.delete_places (b : BackoffQueue q) (p_info : QueuedPodInfo)
    (hone : ¬ (b.pod_backoff_q.has_key p_info.key = true ∧
      b.pod_error_backoff_q.has_key p_info.key = true)) (k : String) :
    (b.delete p_info).1.pod_backoff_q.has_key k =
      (if k = p_info.key then false else b.pod_backoff_q.has_key k) ∧
    (b.delete p_info).1.pod_error_backoff_q.has_key k =
      (if k = p_info.key then false else b.pod_error_backoff_q.has_key k) := by
  unfold BackoffQueue.delete
  rcases b.take_cases p_info with ⟨hb, he, heq⟩ | ⟨p, _, hb, heq⟩ | ⟨p, _, hb, he, heq⟩ <;>
    simp only [heq]
  · split_ifs with hk
    · subst hk; exact ⟨hb, he⟩
    · exact ⟨rfl, rfl⟩
  · refine ⟨Heap.has_key_delete_by_key _ _ k, ?_⟩
    split_ifs with hk
    · subst hk
      rw [← Bool.not_eq_true]
      exact fun he => hone ⟨hb, he⟩
    · rfl
  · refine ⟨?_, Heap.has_key_delete_by_key _ _ k⟩
    split_ifs with hk
    · subst hk; exact hb
    · rfl

theorem move_to_active_q_places (inner : Inner q) (p_info : QueuedPodInfo)
    (hone : ¬ (inner.backoff_q.pod_backoff_q.has_key p_info.key = true ∧
      inner.backoff_q.pod_error_backoff_q.has_key p_info.key = true)) (moves : Bool)
    (hpass : (if moves then p_info else q.run_pre_enqueue_plugins p_info).gated = false)
    (event : String) (now : SystemTime) (k : String) :
    (inner.move_to_active_q p_info event moves now).1.places k =
      if k = p_info.key then ⟨true, false, false, false⟩ else inner.places k := by
  unfold Inner.move_to_active_q
  simp only [hpass, Bool.false_eq_true, if_false]
  generalize hp' : (if (if moves then p_info
      else q.run_pre_enqueue_plugins p_info).initial_attempt_timestamp.isNone = true then _
    else _) = p'
  have hkey : p'.key = p_info.key := by
    rw [← hp']
    split_ifs
    all_goals first | rfl | exact run_pre_enqueue_plugins_key p_info
  rw [← hkey] at hone ⊢
  have hdel := inner.backoff_q.delete_places p' hone k
  unfold Inner.places
  simp only [Heap.has_key_add_or_update, UnschedulablePods.has_key_delete, hdel.1, hdel.2]
  by_cases hk : k = p'.key
  · have hk' : k = pod_key p'.pod := hk
    simp [if_pos hk, if_pos hk']
  · have hk' : ¬ k = pod_key p'.pod := hk
    simp [if_neg hk, if_neg hk']

/-- `move_to_active_q` places the pod, whether it passes the plugins or is
    found gated. -/
theorem move_to_active_q_placed {event : String} {moves : Bool} (hp : Partition inner) :
    Placed inner (inner.move_to_active_q p_info event moves now).1 p_info.key := by
  have hcount : (inner.places p_info.key).count ≤ 1 := hp p_info.key
  unfold Inner.places Places.count at hcount
  cases hgated : (if moves then p_info else q.run_pre_enqueue_plugins p_info).gated with
  | false =>
    have hplaces := move_to_active_q_places inner p_info (by
      rintro ⟨hb, he⟩
      rw [hb, he] at hcount
      simp only [Bool.toNat_true] at hcount
      omega) moves hgated event now
    refine ⟨fun k hk => (hplaces k).trans (if_neg hk), ?_⟩
    rw [hplaces, if_pos rfl]
    rfl
  | true =>
    unfold Inner.move_to_active_q
    simp only [hgated, if_true]
    generalize hp' : (if moves then p_info else q.run_pre_enqueue_plugins p_info) = p'
    have hkey : p'.key = p_info.key := by
      rw [← hp']
      split_ifs
      · rfl
      · exact run_pre_enqueue_plugins_key p_info
    rw [← hkey] at hcount ⊢
    split_ifs with hpresent
    · -- gated and already somewhere: it stays there
      refine ⟨fun _ _ => rfl, ?_⟩
      have hsome : (inner.places p'.key).count ≠ 0 := by
        rw [Places.count_ne_zero_iff]
        simp only [Bool.or_eq_true, BackoffQueue.has, Heap.has] at hpresent
        rcases hpresent with (ha | hb | he) | hu
        · exact .inl ha
        · exact .inr (.inl hb)
        · exact .inr (.inr (.inl he))
        · exact .inr (.inr (.inr hu))
      show (inner.places p'.key).count = 1
      unfold Inner.places Places.count at hsome ⊢
      omega
    · refine placed_unschedulable ?_ rfl rfl rfl
      simp only [Bool.or_eq_true, not_or, Bool.not_eq_true, BackoffQueue.has, Heap.has] at hpresent
      exact ⟨hpresent.1.1, hpresent.1.2.1, hpresent.1.2.2⟩

/-- `move_to_backoff_q` places a pod that is in none of the heaps. -/
theorem move_to_backoff_q_placed (hpre : unqueued inner p_info.key) :
    Placed inner (inner.move_to_backoff_q p_info).1 p_info.key := by
  unfold Inner.move_to_backoff_q
  generalize hp' : q.run_pre_enqueue_plugins p_info = p'
  have hkey : p'.key = p_info.key := by rw [← hp']; exact run_pre_enqueue_plugins_key p_info
  rw [← hkey] at hpre ⊢
  simp only
  split_ifs with hgated hnone
  · exact placed_unschedulable hpre rfl rfl rfl
  · refine ⟨fun _ _ => rfl, ?_⟩
    have hun : inner.unschedulable_pods.has_key p'.key = true := by
      refine Option.isSome_iff_ne_none.mpr fun he => hnone ?_
      exact Option.isNone_iff_eq_none.mpr he
    unfold Inner.places Places.count
    rw [hpre.1, hpre.2.1, hpre.2.2, hun]
    rfl
  · refine ⟨fun k hk => ?_, ?_⟩
    · have hk' : ¬ k = pod_key p'.pod := hk
      unfold Inner.places BackoffQueue.add
      simp only [UnschedulablePods.has_key_delete, if_neg hk']
      split_ifs <;>
        simp [Heap.has_key_add_or_update, Heap.has_key_delete_by_key, if_neg hk]
    · have hk' : p'.key = pod_key p'.pod := rfl
      unfold Inner.places BackoffQueue.add Places.count
      simp only [UnschedulablePods.has_key_delete, if_pos hk', hpre.1]
      split_ifs <;>
        simp only [Heap.has_key_add_or_update, Heap.has_key_delete_by_key, if_true] <;> rfl

/-- `requeue_pod_with_queueing_strategy` places a pod that is in none of the
    heaps. -/
theorem requeue_placed {strategy : QueueingStrategy} {event : String} (hp : Partition inner)
    (hpre : unqueued inner p_info.key) :
    Placed inner (inner.requeue_pod_with_queueing_strategy p_info strategy event now).1
      p_info.key := by
  unfold Inner.requeue_pod_with_queueing_strategy
  split_ifs
  · exact placed_unschedulable hpre rfl rfl rfl
  · exact move_to_backoff_q_placed hpre
  · exact move_to_active_q_placed hp

/-! ### Operations that lose nothing -/

/-- From `inner` to `inner'` the partition is kept and no key is lost. -/
structure Conserves (inner inner' : Inner q) : Prop where
  partition : Partition inner → Partition inner'
  held : ∀ k, inner.held k → inner'.held k

theorem Conserves.refl (inner : Inner q) : Conserves inner inner := ⟨id, fun _ => id⟩

variable {inner₁ : Inner q}

theorem Conserves.trans {inner₂ inner₃ : Inner q} (h₁₂ : Conserves inner₁ inner₂)
    (h₂₃ : Conserves inner₂ inner₃) : Conserves inner₁ inner₃ :=
  ⟨fun hp => h₂₃.partition (h₁₂.partition hp), fun k hk => h₂₃.held k (h₁₂.held k hk)⟩

theorem Placed.conserves (h : Placed inner inner' key) : Conserves inner inner' :=
  ⟨h.partition, fun k hk => (h.held_iff k).mpr (.inr hk)⟩

theorem Conserves.of_places (h : ∀ k, inner'.places k = inner.places k) :
    Conserves inner inner' := by
  refine ⟨fun hp k => ?_, fun k hk => ?_⟩
  · rw [h k]; exact hp k
  · unfold Inner.held
    rw [h k]
    exact hk

theorem Placed.of_others (h : Placed inner₁ inner' key)
    (ho : ∀ k, k ≠ key → inner₁.places k = inner.places k) : Placed inner inner' key :=
  ⟨fun k hk => (h.others k hk).trans (ho k hk), h.once⟩

theorem Partition.of_le (hp : Partition inner)
    (hle : ∀ k, (inner'.places k).count ≤ (inner.places k).count) : Partition inner' :=
  fun k => Nat.le_trans (hle k) (hp k)

/-- Taking a pod out of `unschedulable_pods`. -/
theorem places_delete_unschedulable (inner : Inner q) (pod : Pod) (k : String) :
    Inner.places { inner with unschedulable_pods := inner.unschedulable_pods.delete pod } k =
      if k = pod_key pod then { inner.places k with unschedulable := false }
      else inner.places k := by
  unfold Inner.places
  rw [UnschedulablePods.has_key_delete]
  split_ifs <;> rfl

theorem count_delete_unschedulable (inner : Inner q) (pod : Pod) (k : String) :
    (Inner.places { inner with
      unschedulable_pods := inner.unschedulable_pods.delete pod } k).count ≤
      (inner.places k).count := by
  rw [places_delete_unschedulable]
  split_ifs
  · unfold Places.count
    simp
  · exact le_rfl

/-- Taking a pod out of `unschedulable_pods` and requeuing it. -/
theorem delete_requeue_placed {strategy : QueueingStrategy} {event : String} {pod : Pod}
    (hp : Partition inner) (hpre : unqueued inner p_info.key) (hpod : pod_key pod = p_info.key) :
    Placed inner ({ inner with
        unschedulable_pods := inner.unschedulable_pods.delete pod
      }.requeue_pod_with_queueing_strategy p_info strategy event now).1 p_info.key := by
  refine (requeue_placed (hp.of_le (count_delete_unschedulable inner pod)) hpre).of_others
    fun k hk => ?_
  rw [places_delete_unschedulable, if_neg (by rw [hpod]; exact hk)]

theorem replaced_conserves {pod : Pod} {old p : QueuedPodInfo}
    (hkey : p.key = pod_key pod) (hget : inner.unschedulable_pods.get pod = some old)
    (ha : inner'.active_q = inner.active_q) (hb : inner'.backoff_q = inner.backoff_q)
    (hu : inner'.unschedulable_pods = (inner.unschedulable_pods.delete pod).add_or_update p) :
    Conserves inner inner' := by
  refine Conserves.of_places fun k => ?_
  have hsame : inner'.unschedulable_pods.has_key k = inner.unschedulable_pods.has_key k := by
    rw [hu, UnschedulablePods.has_key_add_or_update, UnschedulablePods.has_key_delete, hkey]
    split_ifs with hk
    · exact (Option.isSome_iff_exists.mpr ⟨old, hk ▸ hget⟩).symm
    · rfl
  unfold Inner.places
  rw [ha, hb, hsame]

/-! ### In-flight bookkeeping touches no container -/

theorem unlocked_done_places (inner : Inner q) (uid k : String) :
    (inner.unlocked_done uid).places k = inner.places k := by
  unfold Inner.unlocked_done
  split <;> rfl

theorem add_events_if_pod_in_flight_places (inner : Inner q) (old_pod : Option Pod)
    (new_pod : Pod) (events : List ClusterEvent) (k : String) :
    (inner.add_events_if_pod_in_flight old_pod new_pod events).1.places k = inner.places k := by
  unfold Inner.add_events_if_pod_in_flight
  split_ifs
  · exact foldlRecOn (motive := fun i : Inner q => i.places k = inner.places k) _ _ rfl
      fun _ hi _ _ => hi
  · rfl

theorem UnschedulablePods.values_keys (u : UnschedulablePods) :
    u.values.map QueuedPodInfo.key = u.pod_info_map.keys := by
  unfold UnschedulablePods.values AList.keys keys
  rw [map_map]
  refine map_congr_left fun e he => ?_
  exact u.keyed e.1 e.2 (AList.mem_lookup_iff.mpr he)

theorem UnschedulablePods.listing {u : UnschedulablePods} {order : List QueuedPodInfo}
    {f : QueuedPodInfo → Bool} (horder : order.Perm (u.values.filter f)) :
    (order.map QueuedPodInfo.key).Nodup ∧ ∀ p ∈ order, u.has_key p.key = true := by
  refine ⟨?_, fun p hp => ?_⟩
  · have hperm := (horder.map QueuedPodInfo.key).nodup_iff
    rw [hperm]
    refine Nodup.sublist (filter_sublist.map _) ?_
    rw [u.values_keys]
    exact u.pod_info_map.nodupKeys
  · have hmem : p ∈ u.values := mem_of_mem_filter (horder.mem_iff.mp hp)
    have hkey : p.key ∈ u.pod_info_map.keys := by
      rw [← u.values_keys]
      exact mem_map_of_mem hmem
    exact AList.lookup_isSome.mpr (AList.mem_keys.mpr hkey)

/-! ### The public functions -/

theorem add_unschedulable_cases (inner : Inner q) (p_info : QueuedPodInfo) (now : SystemTime) :
    (∃ e, inner.add_unschedulable_if_not_present p_info now =
      (inner.unlocked_done p_info.pod.uid, .error e)) ∨
    inner.unschedulable_pods.get p_info.pod = none ∧ unqueued inner p_info.key ∧
      inner.add_unschedulable_if_not_present p_info now =
        ((inner.requeue_pod_with_queueing_strategy (Inner.refresh p_info now)
          (inner.determine_scheduling_hint_for_in_flight_pod (Inner.refresh p_info now))
          SCHEDULE_ATTEMPT_FAILURE now).1.unlocked_done p_info.pod.uid, .ok ()) := by
  unfold Inner.add_unschedulable_if_not_present
  split_ifs with hu ha hb
  · exact .inl ⟨_, rfl⟩
  · exact .inl ⟨_, rfl⟩
  · exact .inl ⟨_, rfl⟩
  · simp only [Bool.not_eq_true, BackoffQueue.has, Heap.has, Bool.or_eq_false_iff] at ha hb
    exact .inr ⟨Option.not_isSome_iff_eq_none.mp hu, ⟨ha, hb.1, hb.2⟩, rfl⟩

variable (hp : Partition inner)
include hp

theorem moved_conserves (hothers : ∀ k, k ≠ p_info.key → inner₁.places k = inner.places k)
    (hle : (inner₁.places p_info.key).count ≤ (inner.places p_info.key).count) :
    Conserves inner (inner₁.move_to_active_q p_info FORCE_ACTIVATE true now).1 := by
  have hp₁ : Partition inner₁ := hp.of_le fun k => by
    by_cases hk : k = p_info.key
    · rw [hk]
      exact hle
    · rw [hothers k hk]
  exact ((move_to_active_q_placed hp₁).of_others hothers).conserves

theorem activate_one_conserves (pod : Pod) :
    Conserves inner (inner.activate_one pod now).1 := by
  unfold Inner.activate_one
  cases hget : inner.unschedulable_pods.get pod with
  | some p =>
    have hc : Conserves inner { inner with
        unschedulable_pods := (inner.unschedulable_pods.delete pod).add_or_update p } :=
      replaced_conserves (inner.unschedulable_pods.keyed _ p hget) hget rfl rfl rfl
    exact hc.trans (move_to_active_q_placed (hc.partition hp)).conserves
  | none =>
    rcases inner.backoff_q.take_cases (.for_lookup pod) with
      ⟨_, _, heq⟩ | ⟨p, hkey, hb, heq⟩ | ⟨p, hkey, hb, he, heq⟩ <;> simp only [heq]
    · exact .refl inner
    all_goals
      refine moved_conserves hp (fun k hk => ?_) ?_ <;> unfold Inner.places Heap.delete
      · simp only [Heap.has_key_delete_by_key, ← hkey, if_neg hk]
      · simp [Places.count, Heap.has_key_delete_by_key, hkey]

theorem activate_turn_conserves (pod : Pod) :
    Conserves inner (Inner.activate_turn now inner pod) := by
  have hone : Conserves inner (inner.activate_one pod now).1 := activate_one_conserves hp pod
  unfold Inner.activate_turn
  simp only
  split_ifs
  · exact hone
  · exact hone.trans (.of_places (add_events_if_pod_in_flight_places _ none pod _))

theorem activate_conserves (pods : List Pod) :
    Conserves inner (inner.activate pods now) := by
  induction pods generalizing inner with
  | nil => exact .refl inner
  | cons pod rest ih =>
    have hturn : Conserves inner (Inner.activate_turn now inner pod) := activate_turn_conserves hp pod
    exact hturn.trans (ih (hturn.partition hp))

theorem add_unschedulable_conserves :
    Conserves inner (inner.add_unschedulable_if_not_present p_info now).1 := by
  have hdone : ∀ inner : Inner q, Conserves inner (inner.unlocked_done p_info.pod.uid) :=
    fun inner => .of_places (unlocked_done_places inner p_info.pod.uid)
  rcases add_unschedulable_cases inner p_info now with ⟨e, heq⟩ | ⟨-, hpre, heq⟩
  · rw [heq]
    exact hdone inner
  · rw [heq]
    have hpre : unqueued inner (Inner.refresh p_info now).key := hpre
    exact (requeue_placed hp hpre).conserves.trans (hdone _)

/-! ### Moving many pods -/

variable {event : ClusterEvent} {old_obj new_obj : Option (EventObject Obj)}

/-- One turn of `move_pods_to_active_or_backoff_queue` leaves the pod where it
    is or places it anew. -/
theorem move_pod_cases (hun : inner.unschedulable_pods.has_key p_info.key = true) :
    inner.move_pod_to_active_or_backoff_queue event old_obj new_obj now p_info = inner ∨
    Placed inner (inner.move_pod_to_active_or_backoff_queue event old_obj new_obj now p_info)
      p_info.key := by
  unfold Inner.move_pod_to_active_or_backoff_queue
  split_ifs
  · exact .inl rfl
  · simp only
    split_ifs
    · exact .inl rfl
    · exact .inr (delete_requeue_placed hp (hp.unqueued_of_unschedulable hun) rfl)

/-- The loop over pods with distinct keys, all of them in `unschedulable_pods`
    at the start: a turn moves its own pod only. -/
theorem move_pods_loop_conserves {pods : List QueuedPodInfo}
    (hnodup : (pods.map QueuedPodInfo.key).Nodup)
    (hun : ∀ p ∈ pods, inner.unschedulable_pods.has_key p.key = true) :
    Conserves inner (pods.foldl (fun inner p =>
      inner.move_pod_to_active_or_backoff_queue event old_obj new_obj now p) inner) := by
  induction pods generalizing inner with
  | nil => exact .refl inner
  | cons p rest ih =>
    rw [map_cons, nodup_cons] at hnodup
    rw [foldl_cons]
    have hrest : ∀ p' ∈ rest, p'.key ≠ p.key := by
      intro p' hp' heq
      exact hnodup.1 (heq ▸ mem_map_of_mem hp')
    rcases move_pod_cases hp (hun p (.head _)) with heq | hplaced
    · rw [heq]
      exact ih hp hnodup.2 fun p' hp' => hun p' (.tail _ hp')
    · refine hplaced.conserves.trans (ih (hplaced.partition hp) hnodup.2 fun p' hp' => ?_)
      have hsame := congrArg Places.unschedulable (hplaced.others p'.key (hrest p' hp'))
      exact hsame.trans (hun p' (.tail _ hp'))

theorem move_pods_conserves {order : List QueuedPodInfo} {f : QueuedPodInfo → Bool}
    (horder : order.Perm (inner.unschedulable_pods.values.filter f)) :
    Conserves inner
      (inner.move_pods_to_active_or_backoff_queue order event old_obj new_obj now) := by
  obtain ⟨hnodup, hun⟩ := UnschedulablePods.listing horder
  unfold Inner.move_pods_to_active_or_backoff_queue
  split_ifs
  · have hloop : Conserves inner (order.foldl (fun inner p =>
        inner.move_pod_to_active_or_backoff_queue event old_obj new_obj now p) inner) :=
      move_pods_loop_conserves hp hnodup hun
    refine hloop.trans (.of_places fun k => ?_)
    simp only [Inner.add_event_if_any_in_flight]
    split_ifs <;> rfl
  · exact .refl inner

/-! ### Completed backoffs -/

omit hp in
theorem pop_completed_spec {less_fn : QueuedPodInfo → QueuedPodInfo → Bool}
    (window : SystemTime) (fuel : Nat) (h : Heap QueuedPodInfo.key less_fn) (k : String) :
    ((BackoffQueue.pop_completed q window fuel h).1.has_key k = true → h.has_key k = true) ∧
    (h.has_key k = true → (BackoffQueue.pop_completed q window fuel h).1.has_key k = true ∨
      k ∈ (BackoffQueue.pop_completed q window fuel h).2.map QueuedPodInfo.key) := by
  induction fuel generalizing h with
  | zero => exact ⟨id, .inl⟩
  | succ fuel ih =>
    unfold BackoffQueue.pop_completed
    split
    · exact ⟨id, .inl⟩
    · split_ifs
      · exact ⟨id, .inl⟩
      · rcases h.pop_cases with ⟨_, hpop⟩ | ⟨p, hget, hres, hkeys, _⟩
        · rw [hpop]
          exact ⟨id, .inl⟩
        · have hpop : h.pop = (h.pop.1, .ok p) := Prod.ext rfl hres
          rw [hpop]
          obtain ⟨hdown, hup⟩ := ih h.pop.1
          refine ⟨fun hk => h.has_key_of_pop (hdown hk), fun hk => ?_⟩
          by_cases hkp : k = p.key
          · exact .inr (by simp [hkp])
          · have hpopped : h.pop.1.has_key k = true := by
              rw [Heap.has_key, hkeys k, if_neg hkp]
              exact hk
            exact (hup hpopped).imp_right (.tail _)

/-- A list of pods moved to activeQ, one after the other: all of them are held
    afterwards, and so is what was held before. -/
theorem foldl_move_to_active_q (pods : List QueuedPodInfo) (event : String) (now : SystemTime) :
    Partition (pods.foldl (fun inner p => (inner.move_to_active_q p event true now).1) inner) ∧
    ∀ k, k ∈ pods.map QueuedPodInfo.key ∨ inner.held k →
      (pods.foldl (fun inner p => (inner.move_to_active_q p event true now).1) inner).held k := by
  induction pods generalizing inner with
  | nil => exact ⟨hp, fun k hk => hk.resolve_left (by simp)⟩
  | cons p rest ih =>
    have hplaced : Placed inner (inner.move_to_active_q p event true now).1 p.key :=
      move_to_active_q_placed hp
    obtain ⟨hpart, hheld⟩ := ih (hplaced.partition hp)
    refine ⟨hpart, fun k hk => hheld k ?_⟩
    rw [map_cons, mem_cons] at hk
    rcases hk with (rfl | hk) | hk
    · exact .inr ((hplaced.held_iff _).mpr (.inl rfl))
    · exact .inl hk
    · exact .inr ((hplaced.held_iff k).mpr (.inr hk))

omit hp in
theorem Places.count_mono {p p' : Places} (ha : p'.active = true → p.active = true)
    (hb : p'.backoff = true → p.backoff = true) (he : p'.error = true → p.error = true)
    (hu : p'.unschedulable = true → p.unschedulable = true) : p'.count ≤ p.count := by
  have hle : ∀ {x y : Bool}, (x = true → y = true) → x.toNat ≤ y.toNat := by decide
  have h₁ := hle ha
  have h₂ := hle hb
  have h₃ := hle he
  have h₄ := hle hu
  unfold Places.count
  omega

theorem flush_backoff_conserves :
    Conserves inner (inner.flush_backoff_q_completed now) := by
  unfold Inner.flush_backoff_q_completed BackoffQueue.pop_all_backoff_completed
  simp only
  have hspec := fun k => pop_completed_spec (q := q) (align_to_window now)
    inner.backoff_q.pod_backoff_q.len inner.backoff_q.pod_backoff_q k
  have hspec' := fun k => pop_completed_spec (q := q) (align_to_window now)
    inner.backoff_q.pod_error_backoff_q.len inner.backoff_q.pod_error_backoff_q k
  generalize BackoffQueue.pop_completed q (align_to_window now)
    inner.backoff_q.pod_backoff_q.len inner.backoff_q.pod_backoff_q = r at hspec ⊢
  generalize BackoffQueue.pop_completed q (align_to_window now)
    inner.backoff_q.pod_error_backoff_q.len inner.backoff_q.pod_error_backoff_q = e at hspec' ⊢
  have hpopped : Partition { inner with backoff_q := ⟨r.1, e.1⟩ } :=
    hp.of_le fun k => Places.count_mono id (hspec k).1 (hspec' k).1 id
  obtain ⟨hpart, hheld⟩ := foldl_move_to_active_q hpopped (r.2 ++ e.2) BACKOFF_COMPLETE now
  refine ⟨fun _ => hpart, fun k hk => hheld k ?_⟩
  unfold Inner.held at hk ⊢
  rw [Places.count_ne_zero_iff] at hk ⊢
  rw [map_append, mem_append]
  -- a popped key is in the list, any other key is where it was
  rcases hk with ha | hb | he | hu
  · exact .inr (.inl ha)
  · rcases (hspec k).2 hb with hb | hb
    · exact .inr (.inr (.inl hb))
    · exact .inl (.inl hb)
  · rcases (hspec' k).2 he with he | he
    · exact .inr (.inr (.inr (.inl he)))
    · exact .inl (.inr he)
  · exact .inr (.inr (.inr (.inr hu)))

/-! ### `update` -/

omit hp in
theorem Heap.has_key_update [DecidableEq K] (h : Heap key_fn less_fn) {x y : T} {key : K}
    (hx : h.get_by_key key = some x) (hy : key_fn y = key) (k : K) :
    (h.add_or_update y).has_key k = h.has_key k := by
  rw [Heap.has_key_add_or_update, hy]
  split_ifs with hk
  · rw [hk, Heap.has_key, hx]; rfl
  · rfl

omit hp in
theorem backoff_update_places (b : BackoffQueue q) (new_pod : Pod) (k : String) :
    (b.update new_pod).1.pod_backoff_q.has_key k = b.pod_backoff_q.has_key k ∧
    (b.update new_pod).1.pod_error_backoff_q.has_key k = b.pod_error_backoff_q.has_key k := by
  unfold BackoffQueue.update
  split
  · rename_i p hget
    exact ⟨Heap.has_key_update _ hget rfl k, rfl⟩
  · split
    · rename_i p hget
      exact ⟨rfl, Heap.has_key_update _ hget rfl k⟩
    · exact ⟨rfl, rfl⟩

variable {old_pod : Option Pod} {new_pod : Pod}

/-- The loop of `update`: as long as the pod is in `unschedulable_pods`, each
    event places it anew. -/
theorem update_loop_conserves {events : List ClusterEvent} :
    Conserves inner (Inner.update_loop old_pod new_pod now events inner) := by
  induction events generalizing inner with
  | nil => exact .refl inner
  | cons evt rest ih =>
    unfold Inner.update_loop
    cases hget : inner.unschedulable_pods.get new_pod with
    | none => exact .refl inner
    | some p_info =>
      simp only
      generalize q.is_pod_worth_requeuing p_info evt (old_pod.map .pod) (some (.pod new_pod)) = hint
      have hkey : p_info.key = pod_key new_pod :=
        inner.unschedulable_pods.keyed _ p_info hget
      have hpre : unqueued inner p_info.key := by
        refine hp.unqueued_of_unschedulable ?_
        rw [hkey]
        exact Option.isSome_iff_exists.mpr ⟨p_info, hget⟩
      have hplaced : Placed inner ((if hint ≠ .QueueSkip then
          { inner with unschedulable_pods := inner.unschedulable_pods.delete new_pod }
          else inner).requeue_pod_with_queueing_strategy p_info hint evt.label now).1
          p_info.key := by
        split_ifs
        · exact delete_requeue_placed hp hpre hkey.symm
        · exact requeue_placed hp hpre
      generalize (if hint ≠ .QueueSkip then
          { inner with unschedulable_pods := inner.unschedulable_pods.delete new_pod }
          else inner).requeue_pod_with_queueing_strategy p_info hint evt.label now = r at hplaced ⊢
      obtain ⟨inner', queue⟩ := r
      cases queue with
      | unschedulable => exact hplaced.conserves.trans (ih (hplaced.partition hp))
      | active | backoff => exact hplaced.conserves

theorem update_unschedulable_conserves {events : List ClusterEvent} :
    Conserves inner (inner.update_unschedulable old_pod new_pod events now) := by
  unfold Inner.update_unschedulable
  cases hget : inner.unschedulable_pods.get new_pod with
  | none => exact (move_to_active_q_placed hp).conserves
  | some p_info =>
    have hc : Conserves inner { inner with
        nominator := inner.nominator.update_nominated_pod (old_pod.getD new_pod) new_pod
        unschedulable_pods :=
          (inner.unschedulable_pods.delete new_pod).add_or_update (p_info.update new_pod) } :=
      replaced_conserves rfl hget rfl rfl rfl
    exact hc.trans (update_loop_conserves (hc.partition hp))

theorem update_queued_conserves {events : List ClusterEvent} :
    Conserves inner (inner.update_queued old_pod new_pod events now) := by
  have hrest : Conserves inner (inner.update_unschedulable old_pod new_pod events now) :=
    update_unschedulable_conserves hp
  unfold Inner.update_queued
  cases old_pod with
  | none => exact hrest
  | some old =>
    cases hget : inner.active_q.get_by_key (pod_key new_pod) with
    | some p =>
      refine Conserves.of_places fun k => ?_
      unfold Inner.places
      simp only [Heap.has_key_update _ hget (show (p.update new_pod).key = _ from rfl)]
    | none =>
      simp only
      split_ifs
      · refine Conserves.of_places fun k => ?_
        obtain ⟨hb, he⟩ := backoff_update_places inner.backoff_q new_pod k
        unfold Inner.places
        simp only [hb, he]
      · exact hrest

theorem update_conserves :
    Conserves inner (inner.update old_pod new_pod now) := by
  have hc : Conserves inner (inner.add_events_if_pod_in_flight old_pod new_pod
      (Inner.update_events old_pod new_pod)).1 :=
    Conserves.of_places (add_events_if_pod_in_flight_places inner old_pod new_pod _)
  unfold Inner.update
  simp only
  split_ifs
  · exact hc
  · exact hc.trans (update_queued_conserves (hc.partition hp))

omit hp

/-! ### `pop` and `delete` -/

theorem pop_next_count_le (inner : Inner q) (k : String) :
    (inner.pop_next.1.places k).count ≤ (inner.places k).count := by
  unfold Inner.pop_next
  have ha := inner.active_q.has_key_of_pop (k := k)
  have hb := inner.backoff_q.pod_backoff_q.has_key_of_pop (k := k)
  split
  · rename_i h p heq
    rw [heq] at ha
    exact Places.count_mono ha id id id
  · split
    · rename_i h p heq
      rw [heq] at hb
      exact Places.count_mono id hb id id
    · exact le_rfl

theorem unlocked_pop_loop_count_le (fuel : Nat) (inner : Inner q) (k : String) :
    ((Inner.unlocked_pop_loop fuel inner).1.places k).count ≤ (inner.places k).count := by
  induction fuel generalizing inner with
  | zero => exact le_rfl
  | succ fuel ih =>
    have hnext := pop_next_count_le inner k
    unfold Inner.unlocked_pop_loop
    split
    · rename_i inner' heq
      rw [heq] at hnext
      exact hnext
    · rename_i inner' p_info heq
      rw [heq] at hnext
      split_ifs
      · exact Nat.le_trans (ih inner') hnext
      · exact hnext

theorem delete_count_le (inner : Inner q) (pod : Pod) (k : String) :
    ((inner.delete pod).places k).count ≤ (inner.places k).count := by
  have hmono : ∀ {less_fn : QueuedPodInfo → QueuedPodInfo → Bool}
      (h : Heap QueuedPodInfo.key less_fn) (p : QueuedPodInfo),
      (h.delete p).1.has_key k = true → h.has_key k = true := by
    intro less_fn h p hk
    unfold Heap.delete at hk
    rw [Heap.has_key_delete_by_key] at hk
    split_ifs at hk
    exact hk
  unfold Inner.delete
  have ha := hmono inner.active_q (.for_lookup pod)
  simp only
  split
  · rename_i h p heq
    rw [heq] at ha
    exact Places.count_mono ha id id id
  · unfold BackoffQueue.delete
    rcases inner.backoff_q.take_cases (.for_lookup pod) with
      ⟨_, _, heq⟩ | ⟨p, _, _, heq⟩ | ⟨p, _, _, _, heq⟩ <;> simp only [heq]
    · exact count_delete_unschedulable inner pod k
    · exact Places.count_mono id (hmono inner.backoff_q.pod_backoff_q _) id id
    · exact Places.count_mono id id (hmono inner.backoff_q.pod_error_backoff_q _) id

theorem close_places (inner : Inner q) (order : List String) (k : String) :
    (inner.close order).places k = inner.places k :=
  foldlRecOn (motive := fun i : Inner q => i.places k = inner.places k) order _ rfl
    fun i hi uid _ => (unlocked_done_places i uid k).trans hi

/-! ### The invariant -/

/-- Calls that may take a key out of the queue. -/
def Op.removes : Op Obj → Bool
  | .pop => true
  | .delete _ => true
  | _ => false

variable {op : Op Obj}

/-- **Step lemma**: no call but `pop` and `delete` loses a key, and the
    partition is kept. -/
theorem apply_conserves (hp : Partition inner) (hen : op.enabled inner) (hop : op.removes = false) :
    Conserves inner (op.apply inner) := by
  match op with
  | .add pod now => exact (move_to_active_q_placed hp).conserves
  | .activate pods now => exact activate_conserves hp pods
  | .pop | .delete _ => simp [Op.removes] at hop
  | .done uid => exact .of_places (unlocked_done_places inner uid)
  | .update old_pod new_pod now => exact update_conserves hp
  | .add_unschedulable_if_not_present p_info now => exact add_unschedulable_conserves hp
  | .move_all_to_active_or_backoff_queue event old_obj new_obj pre_check order now =>
    show Conserves inner
      (inner.move_all_to_active_or_backoff_queue event old_obj new_obj order now)
    unfold Inner.move_all_to_active_or_backoff_queue
    split_ifs
    · exact move_pods_conserves hp hen
    · exact .refl inner
  | .flush_backoff_q_completed now => exact flush_backoff_conserves hp
  | .flush_unschedulable_pods_leftover order now =>
    show Conserves inner (inner.flush_unschedulable_pods_leftover order now)
    unfold Inner.flush_unschedulable_pods_leftover
    split_ifs
    · exact .refl inner
    · exact move_pods_conserves hp hen
  | .add_nominated_pod _ _ | .delete_nominated_pod_if_exists _ =>
    exact .of_places fun _ => rfl
  | .close order => exact .of_places (close_places inner order)

theorem partition_step (hp : Partition inner)
    (hstep : (priority_queue q).step inner op inner') : Partition inner' := by
  obtain ⟨hen, rfl⟩ := hstep
  cases hop : op.removes with
  | false => exact (apply_conserves hp hen hop).partition hp
  | true =>
    cases op with
    | pop => exact hp.of_le (unlocked_pop_loop_count_le _ inner)
    | delete pod => exact hp.of_le (delete_count_le inner pod)
    | _ => nomatch hop

/-- **Run lemma**: every reachable state is partitioned. -/
theorem partition (h : Reachable (priority_queue q) inner) :
    Partition inner := by
  refine Reachable.invariant (I := Partition) ?_ (fun _ _ _ hi hs => partition_step hi hs) h
  rintro inner ⟨pod_lister, rfl⟩ k
  simp [Inner.places, Inner.new, Places.count, Heap.has_key, Heap.get_by_key, Heap.new,
    HeapData.obj, UnschedulablePods.has_key, UnschedulablePods.empty]

/-! ### Main results -/

/-- **Partition**: in every reachable state of the scheduling queue, for any
    hints, plugins and pods, every pod key is held by at most one of `active_q`,
    `pod_backoff_q`, `pod_error_backoff_q` and `unschedulable_pods`; and a call
    other than `pop` and `delete` keeps every key that was held. -/
theorem scheduling_queue_partition (q : PriorityQueue Obj) (inner : Inner q)
    (h : Reachable (priority_queue q) inner) :
    (∀ k, (inner.places k).count ≤ 1) ∧
    (∀ op inner', (priority_queue q).step inner op inner' → op.removes = false →
      ∀ k, inner.held k → inner'.held k) := by
  refine ⟨partition h, fun op inner' hstep hop k hk => ?_⟩
  obtain ⟨hen, rfl⟩ := hstep
  exact (apply_conserves (partition h) hen hop).held k hk

def gating_queue : PriorityQueue Unit where
  less_fn := fun a b => decide (a.timestamp < b.timestamp)
  pod_initial_backoff := from_secs 1
  pod_max_backoff := from_secs 10
  pod_max_in_unschedulable_pods_duration := from_secs 300
  pre_enqueue_plugin_map := (∅ : AList (fun _ : String => List PreEnqueuePlugin)).insert
    "default-scheduler" [⟨"SchedulingGates", fun _ => .error "waiting for scheduling gates"⟩]
  queueing_hint_map := ∅

def bare_pod (name uid : String) : Pod where
  ns := some "default"
  name := name
  uid := uid
  labels := none
  node_name := none
  scheduler_name := none
  priority := none
  tolerations := none
  scheduling_gates := none
  nominated_node_name := none
  resource_claim_statuses := none
  extended_resource_claim_status := none
  requests := ∅

/-- A gated pod is held once, and still held after it is activated. -/
theorem scheduling_queue_partition_gated :
    ∃ inner : Inner gating_queue, Reachable (priority_queue gating_queue) inner ∧
      (inner.places "default/web").count = 1 ∧
      (inner.activate [bare_pod "web" "u1"] 7).held "default/web" := by
  have hreach : Reachable (priority_queue gating_queue)
      ((Inner.new gating_queue none).add (bare_pod "web" "u1") 5) :=
    ⟨[.add (bare_pod "web" "u1") 5], .step (.init ⟨none, rfl⟩) ⟨trivial, rfl⟩⟩
  obtain ⟨hle, hkeep⟩ := scheduling_queue_partition gating_queue _ hreach
  have hheld : Inner.held ((Inner.new gating_queue none).add (bare_pod "web" "u1") 5)
      "default/web" := by decide
  refine ⟨_, hreach, ?_, ?_⟩
  · have hone := hle "default/web"
    unfold Inner.held at hheld
    omega
  · exact hkeep (.activate [bare_pod "web" "u1"] 7) _ ⟨trivial, rfl⟩ rfl "default/web" hheld

end Scheduler
