import Rusternetes.WorkQueue.System

/-! # The Work Queue: Wake-ups

    The check of the queue and the registration for a wake-up are separate
    steps of `get`, so a notification may land between them.

    * For work this is harmless. `add`, `add_after` and `done` use
      `notify_one`, which leaves a permit when nobody waits: as long as the
      queue is non-empty, a permit is stored, a `notify_one` is on its way, or
      some worker is still going to look at the queue (`attentive`).
    * For shutdown it is not. `notify_waiters` stores nothing, so a worker that
      has read its deadline and has not yet created the future (`Pc.arm`) sleeps
      through it. When no worker stands there at the moment of the broadcast,
      nobody is left waiting after `shutdown` has returned.
-/

open LTS Framework

namespace WorkQueue

variable {W Key : Type} [DecidableEq W] [DecidableEq Key]

/-! ### Parked and attentive workers -/

/-- The worker waits in its future, and no wake-up has been delivered to it. -/
def parked (s : State W Key) (w : W) : Prop :=
  (∃ d, s.pc w = .waiting d) ∧ s.notify.future w = .waiting

/-- The worker waits with no timer armed, and no wake-up has been delivered. -/
def parked_without_timer (s : State W Key) (w : W) : Prop :=
  s.pc w = .waiting none ∧ s.notify.future w = .waiting

/-- Positions from which a worker does not go to sleep before its next look at
    the queue. -/
def Pc.looks : Pc Key → Bool
  | .idle | .working _ | .notifying | .check => true
  | .deadline | .arm _ | .waiting _ => false

/-- The worker is going to look at the queue, or has been woken to do so. -/
def attentive (s : State W Key) (w : W) : Prop :=
  (s.pc w).looks = true ∨ (s.notify.future w).woken = true

/-- Non-empty queue: a permit, a notification on its way, or an attentive
    worker. -/
def Attended (s : State W Key) : Prop :=
  s.inner.queue ≠ [] →
    s.notify.permit = true ∨ 0 < s.notifies ∨ ∃ w, attentive s w

variable {s : State W Key} {config : WorkQueueConfig}

theorem Attended.of_looks (w : W) (h : (s.pc w).looks = true) : Attended s :=
  fun _ => .inr (.inr ⟨w, .inl h⟩)

variable {s' : State W Key}

/-- A step that keeps the queue, the permit, the notifications on their way and
    every attentive worker. -/
theorem Attended.frame (h : Attended s) (hq : s'.inner.queue ≠ [] → s.inner.queue ≠ [])
    (hp : s.notify.permit = true → s'.notify.permit = true) (hn : s.notifies ≤ s'.notifies)
    (hw : ∀ w, attentive s w → attentive s' w) : Attended s' := by
  intro hne
  rcases h (hq hne) with hpermit | hpos | ⟨w, hat⟩
  · exact .inl (hp hpermit)
  · exact .inr (.inl (Nat.lt_of_lt_of_le hpos hn))
  · exact .inr (.inr ⟨w, hw w hat⟩)

/-- After a `notify_one` the queue is attended whatever it holds. -/
theorem Attended.of_notify_one (h : s.notify.notify_one s'.notify) : Attended s' := by
  intro _
  rcases Notify.notify_one_delivers h with hp | ⟨w, hw⟩
  · exact .inl hp
  · exact .inr (.inr ⟨w, .inr hw⟩)

/-- A producer's section: a queue it has made non-empty comes with a
    `notify_one` on its way. -/
theorem Attended.produce (h : Attended s) {r : WorkQueueInner Key × Bool}
    (hr : r.1.queue = s.inner.queue ∨ r.2 = true) : Attended (s.produce r) := by
  rcases hr with hq | hn
  · refine h.frame ?_ id ?_ (fun w hw => hw)
    · rw [produce_inner, hq]
      exact id
    · simp [State.produce]
  · intro _
    refine .inr (.inl ?_)
    simp [State.produce, hn]

def Fitting (s : State W Key) : Prop :=
  ∀ w, (∀ d, s.pc w ≠ .waiting d) → s.notify.future w = .absent

theorem Fitting.goto (h : Fitting s) {w : W} (p : Pc Key)
    (hw : ∀ d, s.pc w ≠ .waiting d) : Fitting (s.goto w p) := by
  intro v hv
  by_cases hvw : v = w
  · subst hvw
    exact h v hw
  · rw [goto_pc_ne s w p hvw] at hv
    exact h v hv

theorem Fitting.notify_one {s : State W Key} (h : Fitting s) (hpc : s'.pc = s.pc)
    (hn : s.notify.notify_one s'.notify) : Fitting s' := by
  intro w hw
  rw [hpc] at hw
  exact Notify.notify_one_absent hn (h w hw)

variable {l : Label W Key}

theorem Fitting.step {s : State W Key} (h : Fitting s) (hstep : (work_queue config).step s l s') :
    Fitting s' := by
  match l with
  | .tick _ | .add _ | .add_after _ _ | .requeue _ | .forget _ | .shutdown =>
    subst hstep; exact h
  | .requeue_add _ _ => obtain ⟨_, rfl⟩ := hstep; exact h
  | .notify => obtain ⟨_, n, hn, rfl⟩ := hstep; exact h.notify_one rfl hn
  | .call_get w | .done w _ => obtain ⟨hpc, rfl⟩ := hstep; exact h.goto _ (by simp [hpc])
  | .check w _ _ _ => obtain ⟨hpc, _, rfl, rfl⟩ := hstep; exact h.goto _ (by simp [hpc])
  | .deadline w closed =>
    obtain ⟨hpc, ⟨_, _, rfl⟩ | ⟨_, d, _, rfl⟩⟩ := hstep
    · exact h.goto _ (by simp [hpc])
    · exact h.goto _ (by simp [hpc])
  | .skip w => obtain ⟨⟨d, hpc, _⟩, rfl⟩ := hstep; exact h.goto _ (by simp [hpc])
  | .create w =>
    obtain ⟨d, hpc, _, rfl⟩ := hstep
    intro v hv
    have hvw : v ≠ w := by
      rintro rfl
      exact hv d (goto_pc_self s v _)
    simp only [goto_pc_ne s w _ hvw] at hv
    simp only [Notify.create, Notify.set_future_ne _ _ hvw]
    exact h v hv
  | .poll w =>
    obtain ⟨d, hpc, rfl⟩ := hstep
    intro v hv
    by_cases hvw : v = w
    · subst hvw
      cases hr : (s.notify.poll v).2 with
      | true => exact Notify.poll_ready hr
      | false => exact absurd (by simp [hr]) (hv d)
    · simp only [goto_pc_ne s w _ hvw] at hv
      exact (Notify.poll_future_ne hvw).trans (h v hv)
  | .timeout w =>
    obtain ⟨⟨d, hpc, _⟩, n, hn, rfl⟩ := hstep
    intro v hv
    refine Notify.drop_absent hn ?_
    by_cases hvw : v = w
    · exact .inl hvw
    · simp only [goto_pc_ne s w _ hvw] at hv
      exact .inr (h v hv)
  | .done_notify w =>
    obtain ⟨hpc, n, hn, rfl⟩ := hstep
    exact (h.goto .idle (by simp [hpc])).notify_one rfl hn
  | .broadcast =>
    obtain ⟨_, rfl⟩ := hstep
    intro w hw
    simp [Notify.notify_waiters_future, h w hw, Future.broadcast]

theorem add_queue (inner : WorkQueueInner Key) (key : Key) :
    (add inner key).1.queue = inner.queue ∨ (add inner key).2 = true := by
  rcases add_cases inner key with ⟨_, h⟩ | ⟨_, _, _, h⟩ | ⟨_, _, _, h⟩ <;> rw [h]
  · exact .inl rfl
  · exact .inl rfl
  · exact .inr rfl

theorem add_after_queue (inner : WorkQueueInner Key) (key : Key) (delay : Duration)
    (now : Instant) : (add_after inner key delay now).1.queue = inner.queue := by
  rcases add_after_cases inner key delay now with h | ⟨_, h⟩ <;> rw [h]

/-- **Step lemma**: a non-empty queue stays attended. -/
theorem Attended.step {s : State W Key} (hfit : Fitting s) (h : Attended s)
    (hstep : (work_queue config).step s l s') : Attended s' := by
  match l with
  | .tick _ | .requeue _ | .forget _ | .shutdown => subst hstep; exact h
  | .add key => subst hstep; exact h.produce (add_queue s.inner key)
  | .add_after key delay =>
    subst hstep
    exact h.produce (.inl (add_after_queue s.inner key delay s.clock))
  | .requeue_add key delay =>
    obtain ⟨_, rfl⟩ := hstep
    exact h.produce (.inl (add_after_queue s.inner key delay s.clock))
  | .notify | .done_notify _ =>
    obtain ⟨_, n, hn, rfl⟩ := hstep
    exact .of_notify_one hn
  | .call_get w | .skip w =>
    obtain ⟨_, rfl⟩ := hstep
    exact .of_looks w (by rw [goto_pc_self]; rfl)
  | .check w ready elapse result =>
    obtain ⟨_, _, rfl, rfl⟩ := hstep
    -- whoever takes a key looks again after it; otherwise the queue is empty
    rcases check_and_pop_cases s.inner ready (s.clock + elapse) with
      ⟨_, hq, heq⟩ | ⟨_, hq, heq⟩ | ⟨key, rest, _, heq⟩
    · intro hne
      simp only [heq] at hne
      exact absurd hq hne
    · intro hne
      simp only [heq] at hne
      exact absurd hq hne
    · refine .of_looks w ?_
      simp only [heq, goto_pc_self]
      rfl
  | .deadline w closed =>
    obtain ⟨hpc, ⟨_, _, rfl⟩ | ⟨_, d, _, rfl⟩⟩ := hstep
    · exact .of_looks w (by rw [goto_pc_self]; rfl)
    · exact h.frame id id le_rfl fun v hv => by
        by_cases hvw : v = w
        · subst hvw
          refine .inr (hv.resolve_left ?_)
          rw [hpc]
          exact Bool.false_ne_true
        · unfold attentive
          rw [goto_pc_ne s w _ hvw]
          exact hv
  | .create w =>
    obtain ⟨d, hpc, _, rfl⟩ := hstep
    have hold : s.notify.future w = .absent := hfit w (by simp [hpc])
    refine h.frame id id le_rfl fun v hv => ?_
    have hvw : v ≠ w := by
      rintro rfl
      rw [attentive, hpc, hold] at hv
      simp [Pc.looks, Future.woken] at hv
    unfold attentive
    simp only [goto_pc_ne s w _ hvw, Notify.create, Notify.set_future_ne _ _ hvw]
    exact hv
  | .poll w =>
    obtain ⟨d, hpc, rfl⟩ := hstep
    cases hr : (s.notify.poll w).2 with
    | true => exact .of_looks w (by simp [Pc.looks])
    | false =>
      -- not ready: the worker was not attentive, and takes nothing away
      obtain ⟨hasleep, hpermit⟩ := Notify.poll_pending hr
      refine h.frame id (fun hp => hpermit.trans hp) le_rfl fun v hv => ?_
      have hvw : v ≠ w := by
        rintro rfl
        rw [attentive, hpc, hasleep] at hv
        simp [Pc.looks] at hv
      unfold attentive
      simp only [goto_pc_ne s w _ hvw, Notify.poll_future_ne hvw]
      exact hv
  | .timeout w =>
    obtain ⟨_, n, _, rfl⟩ := hstep
    exact .of_looks w (by simp only [goto_pc_self]; rfl)
  | .done w key =>
    obtain ⟨_, rfl⟩ := hstep
    refine .of_looks w ?_
    simp only [goto_pc_self]
    split <;> rfl
  | .broadcast =>
    obtain ⟨_, rfl⟩ := hstep
    exact h.frame id id le_rfl fun v hv => hv.imp_right Notify.broadcast_woken

/-- **Run lemma**: in every reachable state a non-empty queue is attended. -/
theorem attended (h : Reachable (work_queue config) s) : Attended s := by
  have hboth : Fitting s ∧ Attended s := by
    refine Reachable.invariant (I := fun s => Fitting s ∧ Attended s) ?_ ?_ h
    · rintro s rfl
      exact ⟨fun _ _ => rfl, fun hne => absurd rfl hne⟩
    · intro s l s' hi hs
      exact ⟨hi.1.step hs, hi.2.step hi.1 hs⟩
  exact hboth.2

/-! ### The broadcast of `shutdown` -/

/-- The condition on a broadcast: no worker stands between reading its deadline
    and creating its future. -/
def broadcast_heard (_ : List (Label W Key)) (s : State W Key) (l : Label W Key) : Prop :=
  l = .broadcast → ∀ w d, s.pc w ≠ .arm d

/-- The worker can no longer start to wait unheard. -/
def told (s : State W Key) (w : W) : Prop :=
  (∀ d, s.pc w ≠ .arm d) ∧ (s.notify.future w).unreached = false

/-- A broadcast is only made for a queue that is shut down, and once one was
    made every worker is told. -/
structure AllTold (s : State W Key) : Prop where
  shut : 0 < s.broadcasts ∨ s.returned = true → s.inner.shutdown = true
  told : s.returned = true → ∀ w, told s w

/-- A step that makes no broadcast, keeps the flag and un-tells nobody. -/
theorem AllTold.frame (h : AllTold s)
    (hs : s.inner.shutdown = true → s'.inner.shutdown = true) (hb : s'.broadcasts = s.broadcasts)
    (hr : s'.returned = s.returned)
    (hw : s.inner.shutdown = true → ∀ w, WorkQueue.told s w → WorkQueue.told s' w) :
    AllTold s' := by
  refine ⟨fun hpos => hs (h.shut ?_), fun hret w => ?_⟩
  · rw [← hb, ← hr]; exact hpos
  · rw [hr] at hret
    exact hw (h.shut (.inr hret)) w (h.told hret w)

/-- Moving a worker to a position other than `arm`. -/
theorem told_goto {w : W} {p : Pc Key} (hp : ∀ d, p ≠ .arm d) {v : W}
    (h : told s v) : told (s.goto w p) v := by
  by_cases hvw : v = w
  · subst hvw
    refine ⟨fun d => ?_, h.2⟩
    rw [goto_pc_self]
    exact hp d
  · unfold told
    rw [goto_pc_ne s w p hvw]
    exact h

/-- `notify_one` un-tells nobody. -/
theorem told_notify_one {v : W} (h : told s v) (hpc : s'.pc = s.pc)
    (hn : s.notify.notify_one s'.notify) : told s' v := by
  refine ⟨by rw [hpc]; exact h.1, ?_⟩
  rcases Notify.notify_one_future hn v with heq | heq
  · rw [heq]; exact h.2
  · rw [heq]; rfl

/-- **Step lemma**: a broadcast made under the condition tells everybody, and no
    later step takes that back. -/
theorem AllTold.step {tr : List (Label W Key)} {s : State W Key} (h : AllTold s)
    (hok : broadcast_heard tr s l) (hstep : (work_queue config).step s l s') : AllTold s' := by
  match l with
  | .tick _ | .requeue _ | .forget _ => subst hstep; exact ⟨h.shut, h.told⟩
  | .add _ | .add_after _ _ =>
    subst hstep
    exact h.frame (by simp) rfl rfl fun _ _ hw => hw
  | .requeue_add key delay =>
    obtain ⟨_, rfl⟩ := hstep
    exact h.frame (by simp) rfl rfl fun _ _ hw => hw
  | .notify =>
    obtain ⟨_, n, hn, rfl⟩ := hstep
    exact h.frame id rfl rfl fun _ _ hw => told_notify_one hw rfl hn
  | .call_get w | .skip w =>
    obtain ⟨_, rfl⟩ := hstep
    exact h.frame id rfl rfl fun _ _ hw => told_goto (by simp) hw
  | .check w ready elapse result =>
    obtain ⟨_, _, rfl, rfl⟩ := hstep
    refine h.frame ?_ rfl rfl fun _ _ hw => told_goto (fun d => ?_) hw
    · intro hs
      rw [check_and_pop_shutdown]
      exact hs
    · cases (check_and_pop s.inner ready (s.clock + elapse)).2 <;> simp [Checked.next]
  | .deadline w closed =>
    obtain ⟨_, ⟨_, _, rfl⟩ | ⟨_, d, hread, rfl⟩⟩ := hstep
    · exact h.frame id rfl rfl fun _ _ hw => told_goto (by simp) hw
    · -- a deadline is read only while the queue is not shut down
      refine h.frame id rfl rfl fun hs => ?_
      simp [read_deadline, hs] at hread
  | .create w =>
    -- the worker comes from `arm`, so nobody was told
    obtain ⟨d, hpc, _, rfl⟩ := hstep
    refine ⟨h.shut, fun hret => ?_⟩
    exact absurd hpc ((h.told hret w).1 d)
  | .poll w =>
    obtain ⟨d, _, rfl⟩ := hstep
    refine h.frame id rfl rfl fun _ v hv => ⟨(told_goto (fun d' => ?_) hv).1, ?_⟩
    · split <;> simp
    · exact Notify.poll_unreached hv.2
  | .timeout w =>
    obtain ⟨_, n, hn, rfl⟩ := hstep
    refine h.frame id rfl rfl fun _ v hv => ⟨(told_goto (by simp) hv).1, ?_⟩
    rcases Notify.drop_future hn v with heq | heq
    · simp only [heq]
      by_cases hvw : v = w
      · subst hvw
        rw [Notify.set_future_self]
        rfl
      · rw [Notify.set_future_ne _ _ hvw]
        exact hv.2
    · simp only [heq]
      rfl
  | .done w key =>
    obtain ⟨_, rfl⟩ := hstep
    refine h.frame (by simp) rfl rfl fun _ v hv => told_goto (fun d => ?_) hv
    split <;> simp
  | .done_notify w =>
    obtain ⟨_, n, hn, rfl⟩ := hstep
    exact h.frame id rfl rfl fun _ v hv =>
      told_notify_one (s := s.goto w .idle) (told_goto (by simp) hv) rfl hn
  | .shutdown =>
    subst hstep
    exact ⟨fun _ => rfl, h.told⟩
  | .broadcast =>
    obtain ⟨hpos, rfl⟩ := hstep
    refine ⟨fun _ => h.shut (.inl hpos), fun _ w => ⟨hok rfl w, ?_⟩⟩
    exact Notify.broadcast_reaches _

/-- **Run lemma** for the executions that meet the condition. -/
theorem all_told {tr : List (Label W Key)}
    (h : ExecWhen (work_queue config) broadcast_heard tr s) : AllTold s := by
  refine ExecWhen.invariant (I := fun _ s => AllTold s) (J := fun _ _ => True)
    (fun _ _ _ => trivial) ?_ ?_ h
  · rintro s rfl
    exact ⟨fun hpos => by simp [State.initial] at hpos, fun hret => by simp [State.initial] at hret⟩
  · intro tr s l s' _ hi hok hs
    exact hi.step hok hs

/-! ### Main results -/

/-- **No worker sleeps through work; when it sleeps through shutdown**: in every
    reachable state, if the queue is non-empty, no permit is stored and no
    `notify_one` is on its way, then not every worker is parked without a
    timer. In an execution whose broadcasts are all `broadcast_heard`, no worker
    is parked, without a wake-up delivered to it, once `shutdown` has returned. -/
theorem no_worker_sleeps_through (config : WorkQueueConfig) :
    (∀ s : State W Key, Reachable (work_queue config) s →
      ¬ (s.inner.queue ≠ [] ∧ s.notify.permit = false ∧ s.notifies = 0 ∧
        ∀ w, parked_without_timer s w)) ∧
    (∀ (tr : List (Label W Key)) (s : State W Key),
      ExecWhen (work_queue config) broadcast_heard tr s → s.returned = true →
      ∀ w, ¬ parked s w) := by
  refine ⟨?_, ?_⟩
  · rintro s h ⟨hne, hpermit, hnone, hall⟩
    rcases attended h hne with hp | hpos | ⟨w, hw⟩
    · nomatch hpermit.symm.trans hp
    · omega
    · obtain ⟨hpc, hfut⟩ := hall w
      rw [attentive, hpc, hfut] at hw
      simp [Pc.looks, Future.woken] at hw
  · rintro tr s h hret w ⟨_, hfut⟩
    have htold := ((all_told h).told hret w).2
    rw [hfut] at htold
    cases htold

/-- A parked worker is reached by the broadcast. -/
theorem no_worker_sleeps_through_parked :
    ∃ s : State Unit Nat,
      ExecWhen (work_queue ⟨5, 1000⟩) broadcast_heard
        [.broadcast, .shutdown, .poll (), .create (), .deadline () false,
          .check () [] 0 .empty, .call_get ()] s ∧
      s.returned = true ∧ s.pc () = .waiting none ∧ ¬ parked s () := by
  have hok : ∀ (tr : List (Label Unit Nat)) (s : State Unit Nat) (l : Label Unit Nat),
      l ≠ .broadcast → broadcast_heard tr s l := fun _ _ _ hl h => absurd h hl
  have hrun : ExecWhen (work_queue ⟨5, 1000⟩) broadcast_heard
      [.broadcast, .shutdown, .poll (), .create (), .deadline () false,
        .check () [] 0 .empty, .call_get ()] _ :=
    .step (.step (.step (.step (.step (.step (.step
      (.init (rfl : _ = (State.initial : State Unit Nat)))
      (hok _ _ _ (by simp)) ⟨rfl, rfl⟩)
      (hok _ _ _ (by simp)) ⟨rfl, .refl _, rfl, rfl⟩)
      (hok _ _ _ (by simp)) ⟨rfl, .inr ⟨rfl, none, rfl, rfl⟩⟩)
      (hok _ _ _ (by simp)) ⟨none, rfl, by simp, rfl⟩)
      (hok _ _ _ (by simp)) ⟨none, rfl, rfl⟩)
      (hok _ _ _ (by simp)) rfl)
      (fun _ _ _ => by simp [State.goto, Notify.poll, Notify.create, State.initial, Notify.new]) ⟨by decide, rfl⟩
  exact ⟨_, hrun, rfl, by decide, (no_worker_sleeps_through _).2 _ _ hrun rfl ()⟩

/-- **Asleep after shutdown**: the worker has found the queue empty and read
    that there is no deadline; `shutdown` runs from beginning to end; then the
    worker creates its future and waits, and nothing will wake it. -/
theorem parked_after_shutdown :
    ∃ (tr : List (Label Unit Nat)) (s : State Unit Nat),
      Exec (work_queue ⟨5, 1000⟩) tr s ∧ s.returned = true ∧ s.broadcasts = 0 ∧
      s.notify.permit = false ∧ parked_without_timer s () := by
  have hrun : Exec (work_queue ⟨5, 1000⟩)
      [.poll (), .create (), .broadcast, .shutdown, .deadline () false,
        .check () [] 0 .empty, .call_get ()] _ :=
    .step (.step (.step (.step (.step (.step (.step
      (.init (rfl : _ = (State.initial : State Unit Nat)))
      ⟨rfl, rfl⟩) ⟨rfl, .refl _, rfl, rfl⟩) ⟨rfl, .inr ⟨rfl, none, rfl, rfl⟩⟩) rfl)
      ⟨by decide, rfl⟩) ⟨none, rfl, by simp, rfl⟩) ⟨none, rfl, rfl⟩
  exact ⟨_, _, hrun, rfl, rfl, rfl, by decide, by decide⟩

end WorkQueue
