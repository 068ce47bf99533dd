import Mathlib

/-! # The Work Queue: State and Lock Sections

    `crates/storage/src/workqueue.rs`. One mutex guards `WorkQueueInner`;
    every public call is a few *lock sections* on it, and each section is one
    atomic step of the component. This file gives the state and one function
    per section:

    * `add`, `add_after`, `done`, `shutdown`, `forget`: one section each;
    * `requeue_rate_limited`: `bump_failures`, then `add_after`;
    * `get`: `check_and_pop`, then, when nothing was ready, `read_deadline`.

    A section that is followed by `notify_one` returns `true` beside the new
    state. Instants are natural numbers of nanoseconds and are passed in; a
    section that reads the clock takes what it read.

    `ready` below is the order in which the `delayed` map happens to list its
    matured keys: a `HashMap` promises none, so it is a parameter, any
    permutation of `ready_keys`.
-/

namespace WorkQueue

/-- A point of the monotonic clock, in nanoseconds. -/
abbrev Instant := Nat

/-- A span of time, in nanoseconds. -/
abbrev Duration := Nat

/-- `Duration::as_millis`, then `as u64`. -/
def as_millis_u64 (d : Duration) : Nat := d / 1000000 % 2 ^ 64

def from_millis (ms : Nat) : Duration := ms * 1000000

/-- `MIN_REPROCESS_INTERVAL`: the least time between two processings of one
    key, so that a controller's own status write does not spin. -/
def MIN_REPROCESS_INTERVAL : Duration := from_millis 200

structure WorkQueueConfig where
  /-- Initial backoff duration after first failure. -/
  base_delay : Duration
  /-- Maximum backoff duration. -/
  max_delay : Duration

/-- The state behind the mutex. -/
structure WorkQueueInner (Key : Type) [DecidableEq Key] where
  /-- Keys waiting to be processed (FIFO). -/
  queue : List Key
  /-- Keys in `queue`, and keys to re-queue when they are `done`. -/
  dirty : Finset Key
  /-- Keys currently being processed by a worker. -/
  processing : Finset Key
  /-- Number of consecutive failures per key. -/
  failures : AList (fun _ : Key => Nat)
  /-- Keys delayed until a deadline. -/
  delayed : AList (fun _ : Key => Instant)
  /-- When each key was last dequeued for processing. -/
  last_dequeued : AList (fun _ : Key => Instant)
  /-- Whether the queue has been shut down. -/
  shutdown : Bool

variable {Key : Type} [DecidableEq Key]

/-- `WorkQueue::with_config`: everything empty. -/
def WorkQueueInner.new : WorkQueueInner Key where
  queue := []
  dirty := ∅
  processing := ∅
  failures := ∅
  delayed := ∅
  last_dequeued := ∅
  shutdown := false

/-- `backoff_duration`: `base * 2^(failures - 1)`, saturating, capped at `max`. -/
def backoff_duration (failures : Nat) (base max : Duration) : Duration :=
  if failures = 0 then 0
  else
    -- `1u64.checked_shl` is `None` from a shift of 64 bits on
    let multiplier := if failures - 1 < 64 then 2 ^ (failures - 1) else 2 ^ 64 - 1
    let delay_ms := min (as_millis_u64 base * multiplier) (2 ^ 64 - 1)
    min (from_millis (min delay_ms (as_millis_u64 max))) max

/-! ### Producer sections -/

def add (inner : WorkQueueInner Key) (key : Key) : WorkQueueInner Key × Bool :=
  if inner.shutdown then (inner, false)
  else if key ∈ inner.dirty then (inner, false)
  else
    let dirty := insert key inner.dirty
    -- a key being processed is only marked: `done` re-queues it
    if key ∈ inner.processing then ({ inner with dirty := dirty }, false)
    else
      ({ inner with
          dirty := dirty
          delayed := inner.delayed.erase key
          queue := inner.queue ++ [key] }, true)

/-- `WorkQueue::add_after`: an entry that exists only moves to an earlier
    deadline. -/
def add_after (inner : WorkQueueInner Key) (key : Key) (delay : Duration) (now : Instant) :
    WorkQueueInner Key × Bool :=
  if inner.shutdown then (inner, false)
  else if key ∈ inner.dirty then (inner, false)
  else
    let deadline := now + delay
    let entry := (inner.delayed.lookup key).getD deadline
    let entry := if deadline < entry then deadline else entry
    ({ inner with delayed := inner.delayed.insert key entry }, true)

def num_requeues (inner : WorkQueueInner Key) (key : Key) : Nat :=
  (inner.failures.lookup key).getD 0

/-- The first section of `WorkQueue::requeue_rate_limited`: count the failure
    and compute the delay for the `add_after` that follows. -/
def bump_failures (config : WorkQueueConfig) (inner : WorkQueueInner Key) (key : Key) :
    WorkQueueInner Key × Duration :=
  let failures := (num_requeues inner key + 1) % 2 ^ 32
  ({ inner with failures := inner.failures.insert key failures },
    backoff_duration failures config.base_delay config.max_delay)

def forget (inner : WorkQueueInner Key) (key : Key) : WorkQueueInner Key :=
  { inner with failures := inner.failures.erase key }

/-- The section of `WorkQueue::shutdown`; `notify_waiters` follows. -/
def shutdown (inner : WorkQueueInner Key) : WorkQueueInner Key :=
  { inner with shutdown := true }

/-! ### Worker sections -/

/-- The matured keys of `delayed`, in the model's own order. -/
def ready_keys (inner : WorkQueueInner Key) (now : Instant) : List Key :=
  (inner.delayed.entries.filter (fun e => decide (e.2 ≤ now))).map Sigma.fst

/-- One turn of the promotion loop in `WorkQueue::get`. -/
def promote_one (inner : WorkQueueInner Key) (key : Key) : WorkQueueInner Key :=
  let delayed := inner.delayed.erase key
  if key ∈ inner.dirty then { inner with delayed := delayed }
  else if key ∈ inner.processing then
    { inner with delayed := delayed, dirty := insert key inner.dirty }
  else
    { inner with
      delayed := delayed
      dirty := insert key inner.dirty
      queue := inner.queue ++ [key] }

/-- The promotion loop of `WorkQueue::get`. -/
def promote (inner : WorkQueueInner Key) (ready : List Key) : WorkQueueInner Key :=
  ready.foldl promote_one inner

/-- How the first section of `get` ends. -/
inductive Checked (Key : Type) where
  /-- Shut down with an empty queue: `get` returns `None`. -/
  | closed
  /-- `get` returns this key. -/
  | popped (key : Key)
  /-- Nothing ready: on to the second section. -/
  | empty
  deriving DecidableEq

/-- The first section of `WorkQueue::get`: promote the matured keys and
    dequeue. `dequeued_at` is the clock as read for `last_dequeued`. -/
def check_and_pop (inner : WorkQueueInner Key) (ready : List Key) (dequeued_at : Instant) :
    WorkQueueInner Key × Checked Key :=
  if inner.shutdown && inner.queue.isEmpty then (inner, .closed)
  else
    let inner := promote inner ready
    match inner.queue with
    | [] => (inner, .empty)
    | key :: rest =>
      ({ inner with
          queue := rest
          dirty := inner.dirty.erase key
          processing := insert key inner.processing
          last_dequeued := inner.last_dequeued.insert key dequeued_at }, .popped key)

/-- The second section of `WorkQueue::get`: `none` when `get` returns `None`,
    else the earliest deadline to sleep to, if there is one. -/
def read_deadline (inner : WorkQueueInner Key) : Option (Option Instant) :=
  if inner.shutdown then none
  else some (inner.delayed.entries.map Sigma.snd).min?

/-- `WorkQueue::done`: a key re-added meanwhile is re-queued, at once or,
    when it was dequeued less than `MIN_REPROCESS_INTERVAL` ago, after the
    remainder of it. -/
def done (inner : WorkQueueInner Key) (key : Key) (now : Instant) : WorkQueueInner Key × Bool :=
  let processing := inner.processing.erase key
  if key ∈ inner.dirty then
    match inner.last_dequeued.lookup key with
    | some dequeued_at =>
      let elapsed := now - dequeued_at
      if elapsed < MIN_REPROCESS_INTERVAL then
        ({ inner with
            processing := processing
            dirty := inner.dirty.erase key
            delayed := inner.delayed.insert key (now + (MIN_REPROCESS_INTERVAL - elapsed)) }, true)
      else ({ inner with processing := processing, queue := inner.queue ++ [key] }, true)
    | none => ({ inner with processing := processing, queue := inner.queue ++ [key] }, true)
  else ({ inner with processing := processing }, false)

/-! ### What each section can do

    Inversion lemmas: one disjunct per way through the section. Everything
    below this file reasons from these. -/

variable (inner : WorkQueueInner Key) (key : Key) (delay : Duration) (now : Instant)
  (ready : List Key) (dequeued_at : Instant)

/-- The three ends of `add`. -/
theorem add_cases :
    ((inner.shutdown = true ∨ key ∈ inner.dirty) ∧ add inner key = (inner, false)) ∨
    (inner.shutdown = false ∧ key ∉ inner.dirty ∧ key ∈ inner.processing ∧
      add inner key = ({ inner with dirty := insert key inner.dirty }, false)) ∨
    (inner.shutdown = false ∧ key ∉ inner.dirty ∧ key ∉ inner.processing ∧
      add inner key = ({ inner with
        dirty := insert key inner.dirty
        delayed := inner.delayed.erase key
        queue := inner.queue ++ [key] }, true)) := by
  unfold add
  split_ifs with hs hd hp
  · exact .inl ⟨.inl hs, rfl⟩
  · exact .inl ⟨.inr hd, rfl⟩
  · exact .inr (.inl ⟨Bool.eq_false_of_not_eq_true hs, hd, hp, rfl⟩)
  · exact .inr (.inr ⟨Bool.eq_false_of_not_eq_true hs, hd, hp, rfl⟩)

@[simp] theorem add_processing : (add inner key).1.processing = inner.processing := by
  unfold add; split_ifs <;> rfl

@[simp] theorem add_shutdown : (add inner key).1.shutdown = inner.shutdown := by
  unfold add; split_ifs <;> rfl

/-- `add_after` touches nothing but `delayed`, where it can only set `key`. -/
theorem add_after_cases :
    (add_after inner key delay now = (inner, false)) ∨
    (∃ entry, add_after inner key delay now =
      ({ inner with delayed := inner.delayed.insert key entry }, true)) := by
  unfold add_after
  split_ifs
  · exact .inl rfl
  · exact .inl rfl
  · exact .inr ⟨_, rfl⟩

@[simp] theorem add_after_processing :
    (add_after inner key delay now).1.processing = inner.processing := by
  rcases add_after_cases inner key delay now with h | ⟨_, h⟩ <;> rw [h]

@[simp] theorem add_after_shutdown :
    (add_after inner key delay now).1.shutdown = inner.shutdown := by
  rcases add_after_cases inner key delay now with h | ⟨_, h⟩ <;> rw [h]

/-- The three ends of `done`. -/
theorem done_cases :
    (key ∉ inner.dirty ∧
      done inner key now = ({ inner with processing := inner.processing.erase key }, false)) ∨
    (key ∈ inner.dirty ∧ ∃ deadline, done inner key now =
      ({ inner with
        processing := inner.processing.erase key
        dirty := inner.dirty.erase key
        delayed := inner.delayed.insert key deadline }, true)) ∨
    (key ∈ inner.dirty ∧ done inner key now =
      ({ inner with
        processing := inner.processing.erase key
        queue := inner.queue ++ [key] }, true)) := by
  unfold done
  split_ifs with hd
  · cases inner.last_dequeued.lookup key with
    | none => exact .inr (.inr ⟨hd, rfl⟩)
    | some =>
      simp only
      split_ifs
      · exact .inr (.inl ⟨hd, _, rfl⟩)
      · exact .inr (.inr ⟨hd, rfl⟩)
  · exact .inl ⟨hd, rfl⟩

@[simp] theorem done_processing :
    (done inner key now).1.processing = inner.processing.erase key := by
  rcases done_cases inner key now with ⟨_, h⟩ | ⟨_, _, h⟩ | ⟨_, h⟩ <;> rw [h]

@[simp] theorem done_shutdown : (done inner key now).1.shutdown = inner.shutdown := by
  rcases done_cases inner key now with ⟨_, h⟩ | ⟨_, _, h⟩ | ⟨_, h⟩ <;> rw [h]

/-- The three ends of the first section of `get`. -/
theorem check_and_pop_cases :
    (inner.shutdown = true ∧ inner.queue = [] ∧
      check_and_pop inner ready dequeued_at = (inner, .closed)) ∨
    ((inner.shutdown = false ∨ inner.queue ≠ []) ∧ (promote inner ready).queue = [] ∧
      check_and_pop inner ready dequeued_at = (promote inner ready, .empty)) ∨
    (∃ key rest, (promote inner ready).queue = key :: rest ∧
      check_and_pop inner ready dequeued_at =
        ({ promote inner ready with
            queue := rest
            dirty := (promote inner ready).dirty.erase key
            processing := insert key (promote inner ready).processing
            last_dequeued := (promote inner ready).last_dequeued.insert key dequeued_at },
          .popped key)) := by
  unfold check_and_pop
  by_cases hc : (inner.shutdown && inner.queue.isEmpty) = true
  · have hc' := hc
    simp only [Bool.and_eq_true, List.isEmpty_iff] at hc'
    exact .inl ⟨hc'.1, hc'.2, by rw [if_pos hc]⟩
  · rw [if_neg hc]
    cases hq : (promote inner ready).queue with
    | nil =>
      refine .inr (.inl ⟨?_, rfl, by simp [hq]⟩)
      simp only [Bool.and_eq_true, List.isEmpty_iff, not_and] at hc
      by_cases hs : inner.shutdown = true
      · exact .inr (hc hs)
      · exact .inl (by simpa using hs)
    | cons key rest => exact .inr (.inr ⟨key, rest, rfl, by simp [hq]⟩)

/-! ### The promotion loop

    Promotion touches `delayed`, `dirty` and `queue` only, and a key that is
    being processed never enters the queue by it. -/

@[simp] theorem promote_cons :
    promote inner (key :: ready) = promote (promote_one inner key) ready := rfl

@[simp] theorem promote_one_processing : (promote_one inner key).processing = inner.processing := by
  unfold promote_one; split_ifs <;> rfl

@[simp] theorem promote_one_shutdown : (promote_one inner key).shutdown = inner.shutdown := by
  unfold promote_one; split_ifs <;> rfl

@[simp] theorem promote_processing : (promote inner ready).processing = inner.processing := by
  induction ready generalizing inner with
  | nil => rfl
  | cons key ready ih => rw [promote_cons, ih, promote_one_processing]

@[simp] theorem promote_shutdown : (promote inner ready).shutdown = inner.shutdown := by
  induction ready generalizing inner with
  | nil => rfl
  | cons key ready ih => rw [promote_cons, ih, promote_one_shutdown]

@[simp] theorem check_and_pop_shutdown :
    (check_and_pop inner ready dequeued_at).1.shutdown = inner.shutdown := by
  rcases check_and_pop_cases inner ready dequeued_at with
    ⟨_, _, h⟩ | ⟨_, _, h⟩ | ⟨_, _, _, h⟩ <;> rw [h]
  · exact promote_shutdown inner ready
  · exact promote_shutdown inner ready

theorem queue_isPrefix_promote_one : ∃ new, (promote_one inner key).queue = inner.queue ++ new := by
  unfold promote_one
  split_ifs
  · exact ⟨[], (List.append_nil _).symm⟩
  · exact ⟨[], (List.append_nil _).symm⟩
  · exact ⟨[key], rfl⟩

theorem mem_queue_promote {inner : WorkQueueInner Key} {k : Key} (h : k ∈ inner.queue)
    (ready : List Key) : k ∈ (promote inner ready).queue := by
  induction ready generalizing inner with
  | nil => exact h
  | cons key ready ih =>
    obtain ⟨new, hq⟩ := queue_isPrefix_promote_one inner key
    exact ih (by rw [hq]; exact List.mem_append_left _ h)

end WorkQueue
