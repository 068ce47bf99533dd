import Rusternetes.Framework.LTS
import Rusternetes.Framework.Notify
import Rusternetes.WorkQueue.Queue

/-! # The Work Queue: Workers and Producers

    The queue as a concurrent component. Any number of workers (`W`) run
    `get`, process, `done`, and any number of producers call `add`,
    `add_after`, `requeue_rate_limited`, `forget` and `shutdown`. A step is one
    lock section, one operation on the `Notify`, or the passing of time:

    * producers are anonymous; `notifies` counts those that have released the
      lock and not yet called `notify_one`, `requeues` holds the calls of
      `requeue_rate_limited` between their two sections, `broadcasts` counts
      the `shutdown` calls between the flag and `notify_waiters`;
    * a worker's position inside `get` and `done` is its `Pc`.

    `get` is the steps `check`, `deadline`, then `skip` or `create`, then
    `poll` until the future is ready or the timer fires, and back to `check`.

    Labels carry what a step returned, so that the past of an execution can be
    read off its labels.
-/

open LTS Framework

namespace WorkQueue

variable (W Key : Type) [DecidableEq W] [DecidableEq Key]

/-! ### State -/

/-- Where a worker stands. -/
inductive Pc (Key : Type) where
  /-- Outside `get` and `done`, holding no key. -/
  | idle
  /-- `get` returned `key`; `done` is still to be called. -/
  | working (key : Key)
  /-- In `done`, lock released, about to call `notify_one`. -/
  | notifying
  /-- In `get`, about to enter the first section. -/
  | check
  /-- In `get`, nothing was ready; about to enter the second section. -/
  | deadline
  /-- In `get`, the deadline is read; about to create the future. -/
  | arm (deadline : Option Instant)
  /-- In `get`, the future exists; a timer runs to `deadline` if there is one. -/
  | waiting (deadline : Option Instant)
  deriving DecidableEq

structure State where
  inner : WorkQueueInner Key
  notify : Notify W
  pc : W → Pc Key
  /-- The monotonic clock. -/
  clock : Instant
  /-- Producers that owe a `notify_one`. -/
  notifies : Nat
  /-- `requeue_rate_limited` calls that owe their `add_after`. -/
  requeues : List (Key × Duration)
  /-- `shutdown` calls that owe their `notify_waiters`. -/
  broadcasts : Nat
  /-- Some `shutdown` call has returned. -/
  returned : Bool

/-! ### Labels -/

/-- The steps of the component. -/
inductive Label where
  /-- Time passes. -/
  | tick (d : Duration)
  | add (key : Key)
  | add_after (key : Key) (delay : Duration)
  /-- First section of `requeue_rate_limited`. -/
  | requeue (key : Key)
  /-- Second section of `requeue_rate_limited`. -/
  | requeue_add (key : Key) (delay : Duration)
  | forget (key : Key)
  /-- A producer's `notify_one`. -/
  | notify
  /-- A worker enters `get`. -/
  | call_get (w : W)
  /-- First section of `get`: the matured keys, the time until the key is
      stamped, and how the section ends. -/
  | check (w : W) (ready : List Key) (elapse : Duration) (result : Checked Key)
  /-- Second section of `get`, and whether `get` returns `None` from it. -/
  | deadline (w : W) (closed : Bool)
  /-- The deadline has passed already: `get` loops without parking. -/
  | skip (w : W)
  /-- `notified()`. -/
  | create (w : W)
  /-- The future is polled. -/
  | poll (w : W)
  /-- The timer fires; the future is dropped. -/
  | timeout (w : W)
  /-- The section of `done`. -/
  | done (w : W) (key : Key)
  /-- The `notify_one` of `done`. -/
  | done_notify (w : W)
  /-- The section of `shutdown`. -/
  | shutdown
  /-- The `notify_waiters` of `shutdown`, which then returns. -/
  | broadcast

variable {W Key}

/-- Move worker `w` to `p`. -/
def State.goto (s : State W Key) (w : W) (p : Pc Key) : State W Key :=
  { s with pc := Function.update s.pc w p }

/-- A producer's section: the new queue state, and the `notify_one` it owes. -/
def State.produce (s : State W Key) (r : WorkQueueInner Key × Bool) : State W Key :=
  { s with inner := r.1, notifies := s.notifies + r.2.toNat }

/-- Where a worker goes after the first section of `get`. -/
def Checked.next : Checked Key → Pc Key
  | .closed => .idle
  | .popped key => .working key
  | .empty => .deadline

/-! ### The System -/

/-- Nothing has happened yet. -/
def State.initial : State W Key where
  inner := .new
  notify := .new
  pc := fun _ => .idle
  clock := 0
  notifies := 0
  requeues := []
  broadcasts := 0
  returned := false

def work_queue (config : WorkQueueConfig) : System (State W Key) (Label W Key) where
  init := fun s => s = .initial
  step := fun s lbl s' =>
    match lbl with
    | .tick d => s' = { s with clock := s.clock + d }
    | .add key => s' = s.produce (add s.inner key)
    | .add_after key delay => s' = s.produce (add_after s.inner key delay s.clock)
    | .requeue key =>
        s' = { s with
          inner := (bump_failures config s.inner key).1
          requeues := (key, (bump_failures config s.inner key).2) :: s.requeues }
    | .requeue_add key delay =>
        (key, delay) ∈ s.requeues ∧
        s' = { s.produce (add_after s.inner key delay s.clock) with
          requeues := s.requeues.erase (key, delay) }
    | .forget key => s' = { s with inner := forget s.inner key }
    | .notify =>
        0 < s.notifies ∧
        ∃ n, s.notify.notify_one n ∧ s' = { s with notify := n, notifies := s.notifies - 1 }
    | .call_get w => s.pc w = .idle ∧ s' = s.goto w .check
    | .check w ready elapse result =>
        s.pc w = .check ∧
        ready.Perm (ready_keys s.inner s.clock) ∧
        result = (check_and_pop s.inner ready (s.clock + elapse)).2 ∧
        s' = { s.goto w result.next with
          inner := (check_and_pop s.inner ready (s.clock + elapse)).1
          clock := s.clock + elapse }
    | .deadline w closed =>
        s.pc w = .deadline ∧
        ((closed = true ∧ read_deadline s.inner = none ∧ s' = s.goto w .idle) ∨
         (closed = false ∧ ∃ d, read_deadline s.inner = some d ∧ s' = s.goto w (.arm d)))
    | .skip w => (∃ d, s.pc w = .arm (some d) ∧ d ≤ s.clock) ∧ s' = s.goto w .check
    | .create w =>
        ∃ d, s.pc w = .arm d ∧ (∀ t, d = some t → s.clock < t) ∧
          s' = { s.goto w (.waiting d) with notify := s.notify.create w }
    | .poll w =>
        ∃ d, s.pc w = .waiting d ∧
          s' = { s.goto w (if (s.notify.poll w).2 then .check else .waiting d) with
            notify := (s.notify.poll w).1 }
    | .timeout w =>
        (∃ d, s.pc w = .waiting (some d) ∧ d ≤ s.clock) ∧
        ∃ n, s.notify.drop w n ∧ s' = { s.goto w .check with notify := n }
    | .done w key =>
        s.pc w = .working key ∧
        s' = { s.goto w (if (done s.inner key s.clock).2 then .notifying else .idle) with
          inner := (done s.inner key s.clock).1 }
    | .done_notify w =>
        s.pc w = .notifying ∧
        ∃ n, s.notify.notify_one n ∧ s' = { s.goto w .idle with notify := n }
    | .shutdown =>
        s' = { s with inner := shutdown s.inner, broadcasts := s.broadcasts + 1 }
    | .broadcast =>
        0 < s.broadcasts ∧
        s' = { s with
          notify := s.notify.notify_waiters
          broadcasts := s.broadcasts - 1
          returned := true }

/-! ### Small lemmas -/

section simp_lemmas

variable (s : State W Key) (w : W) (p : Pc Key) (r : WorkQueueInner Key × Bool)

@[simp] theorem goto_pc_self : (s.goto w p).pc w = p := by simp [State.goto]

@[simp] theorem produce_inner : (s.produce r).inner = r.1 := rfl

theorem goto_pc_ne {w' : W} (h : w' ≠ w) : (s.goto w p).pc w' = s.pc w' := by
  simp [State.goto, Function.update_of_ne h]

end simp_lemmas

/-! ### What a step does to the keys

    For the keys only six kinds of steps matter. Every other step is quiet: it
    moves no key, and no worker takes, drops or looks for one by it. -/

/-- Steps that leave every key where it is. -/
def Label.quiet : Label W Key → Bool
  | .add _ | .add_after _ _ | .requeue_add _ _ | .check _ _ _ _ | .done _ _ | .shutdown => false
  | _ => true

/-- `inner'` has the keys of `inner` where they were. -/
structure SameKeys (inner inner' : WorkQueueInner Key) : Prop where
  queue : inner'.queue = inner.queue
  dirty : inner'.dirty = inner.dirty
  processing : inner'.processing = inner.processing
  delayed : inner'.delayed = inner.delayed
  shutdown : inner'.shutdown = inner.shutdown

theorem SameKeys.refl (inner : WorkQueueInner Key) : SameKeys inner inner :=
  ⟨rfl, rfl, rfl, rfl, rfl⟩

/-- Positions at which a worker neither holds a key nor has just found the
    queue empty. -/
def Pc.away : Pc Key → Bool
  | .working _ | .deadline => false
  | _ => true

/-- A quiet step: the workers it moves are away before and after, or were at
    the second section. -/
def QuietStep (s s' : State W Key) : Prop :=
  SameKeys s.inner s'.inner ∧
  ∀ w, s'.pc w = s.pc w ∨
    ((s.pc w).away = true ∨ s.pc w = .deadline) ∧ (s'.pc w).away = true

/-- A step that moves one worker between positions and keeps `inner` is quiet. -/
theorem QuietStep.of_goto {s s' : State W Key} {w : W} {p : Pc Key}
    (hinner : s'.inner = s.inner) (hpc : s'.pc = (s.goto w p).pc)
    (hfrom : (s.pc w).away = true ∨ s.pc w = .deadline) (hto : p.away = true) : QuietStep s s' := by
  refine ⟨by rw [hinner]; exact SameKeys.refl _, fun w' => ?_⟩
  rw [hpc]
  by_cases hw : w' = w
  · subst hw
    exact .inr ⟨hfrom, by rw [goto_pc_self]; exact hto⟩
  · exact .inl (goto_pc_ne s w p hw)

inductive KeyStep (s s' : State W Key) : Label W Key → Prop where
  | add {key : Key} (hinner : s'.inner = (WorkQueue.add s.inner key).1) (hpc : s'.pc = s.pc) :
      KeyStep s s' (.add key)
  | add_after {key : Key} {delay : Duration} {l : Label W Key}
      (hl : l = .add_after key delay ∨ l = .requeue_add key delay)
      (hinner : s'.inner = (WorkQueue.add_after s.inner key delay s.clock).1)
      (hpc : s'.pc = s.pc) : KeyStep s s' l
  | check {w : W} {ready : List Key} {elapse : Duration} {result : Checked Key}
      (hat : s.pc w = .check) (hready : ready.Perm (ready_keys s.inner s.clock))
      (hinner : check_and_pop s.inner ready (s.clock + elapse) = (s'.inner, result))
      (hpc : s'.pc = (s.goto w result.next).pc) : KeyStep s s' (.check w ready elapse result)
  | done {w : W} {key : Key} {p : Pc Key} (hat : s.pc w = .working key) (hp : p.away = true)
      (hinner : s'.inner = (WorkQueue.done s.inner key s.clock).1)
      (hpc : s'.pc = (s.goto w p).pc) : KeyStep s s' (.done w key)
  | shutdown (hinner : s'.inner = WorkQueue.shutdown s.inner) (hpc : s'.pc = s.pc) :
      KeyStep s s' .shutdown
  | quiet {l : Label W Key} (hl : l.quiet = true) (hq : QuietStep s s') : KeyStep s s' l

/-- **Inversion**: what a step of the component does to the keys. -/
theorem step_keys {config : WorkQueueConfig} {s s' : State W Key} {l : Label W Key}
    (hstep : (work_queue config).step s l s') : KeyStep s s' l := by
  match l with
  | .add key => subst hstep; exact .add rfl rfl
  | .add_after key delay => subst hstep; exact .add_after (.inl rfl) rfl rfl
  | .requeue_add key delay => obtain ⟨_, rfl⟩ := hstep; exact .add_after (.inr rfl) rfl rfl
  | .check w ready elapse result =>
    obtain ⟨hpc, hready, rfl, rfl⟩ := hstep
    exact .check hpc hready rfl rfl
  | .done w key =>
    obtain ⟨hpc, rfl⟩ := hstep
    refine .done hpc ?_ rfl rfl
    split <;> rfl
  | .shutdown => subst hstep; exact .shutdown rfl rfl
  -- the quiet steps: first those that move no worker
  | .tick d => subst hstep; exact .quiet rfl ⟨SameKeys.refl _, fun _ => .inl rfl⟩
  | .requeue key | .forget key =>
    subst hstep
    exact .quiet rfl ⟨⟨rfl, rfl, rfl, rfl, rfl⟩, fun _ => .inl rfl⟩
  | .notify =>
    obtain ⟨_, n, _, rfl⟩ := hstep
    exact .quiet rfl ⟨SameKeys.refl _, fun _ => .inl rfl⟩
  | .broadcast =>
    obtain ⟨_, rfl⟩ := hstep
    exact .quiet rfl ⟨SameKeys.refl _, fun _ => .inl rfl⟩
  | .call_get w =>
    obtain ⟨hpc, rfl⟩ := hstep
    exact .quiet rfl (.of_goto rfl rfl (.inl (by rw [hpc]; rfl)) rfl)
  | .deadline w closed =>
    obtain ⟨hpc, ⟨_, _, rfl⟩ | ⟨_, d, _, rfl⟩⟩ := hstep
    · exact .quiet rfl (.of_goto rfl rfl (.inr hpc) rfl)
    · exact .quiet rfl (.of_goto rfl rfl (.inr hpc) rfl)
  | .skip w =>
    obtain ⟨⟨d, hpc, _⟩, rfl⟩ := hstep
    exact .quiet rfl (.of_goto rfl rfl (.inl (by rw [hpc]; rfl)) rfl)
  | .create w =>
    obtain ⟨d, hpc, _, rfl⟩ := hstep
    exact .quiet rfl (.of_goto rfl rfl (.inl (by rw [hpc]; rfl)) rfl)
  | .poll w =>
    obtain ⟨d, hpc, rfl⟩ := hstep
    refine .quiet rfl (.of_goto rfl rfl (.inl (by rw [hpc]; rfl)) ?_)
    split <;> rfl
  | .timeout w =>
    obtain ⟨⟨d, hpc, _⟩, n, _, rfl⟩ := hstep
    exact .quiet rfl (.of_goto rfl rfl (.inl (by rw [hpc]; rfl)) rfl)
  | .done_notify w =>
    obtain ⟨hpc, n, _, rfl⟩ := hstep
    exact .quiet rfl (.of_goto rfl rfl (.inl (by rw [hpc]; rfl)) rfl)

end WorkQueue
