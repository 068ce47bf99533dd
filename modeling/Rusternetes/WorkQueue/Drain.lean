import Rusternetes.WorkQueue.Exclusion

/-! # The Work Queue: Accepted Keys and the End of `get`

    An `add` that was not refused is *outstanding* until a later `get` returns
    its key. In every execution an outstanding key is still somewhere: in the
    queue, in `delayed`, or marked dirty while being processed.

    `get` is documented to return `None` "once the queue is drained". It does
    not wait for `delayed` nor for marked keys, and its second section does not
    look at the queue at all: a `get` that has found the queue empty returns
    `None` when `shutdown` comes before its second section, whatever was added
    in between. What does hold: if at the moment of `shutdown` every
    outstanding key is in the queue, and, when there is one, no worker stands
    between the two sections of `get`, then `None` is returned only when
    nothing is outstanding.
-/

open LTS List

namespace WorkQueue

variable {W Key : Type} [DecidableEq Key]

/-! ### Outstanding keys -/

/-- Some `add k` was accepted and no `get` has returned `k` since. -/
def outstanding (k : Key) : List (Label W Key) → Bool
  | [] => false
  | .add key :: tr => (key == k && !shut tr) || outstanding k tr
  | .check _ _ _ (.popped key) :: tr => !(key == k) && outstanding k tr
  | _ :: tr => outstanding k tr

/-- Steps by which a `get` returns `None`. -/
def Label.returns_none : Label W Key → Bool
  | .check _ _ _ .closed => true
  | .deadline _ closed => closed
  | _ => false

/-- Where an outstanding key can be. -/
def represented (inner : WorkQueueInner Key) (k : Key) : Prop :=
  k ∈ inner.queue ∨ k ∈ inner.delayed ∨ (k ∈ inner.dirty ∧ k ∈ inner.processing)

theorem outstanding_add (k key : Key) (tr : List (Label W Key)) :
    outstanding k (.add key :: tr) = true ↔
      (k = key ∧ shut tr = false) ∨ outstanding k tr = true := by
  have hdef : outstanding k (.add key :: tr) = ((key == k && !shut tr) || outstanding k tr) := rfl
  rw [hdef, Bool.or_eq_true, Bool.and_eq_true, beq_iff_eq, Bool.not_eq_true', eq_comm (a := key)]

theorem outstanding_popped (k key : Key) (w : W) (ready : List Key) (elapse : Duration)
    (tr : List (Label W Key)) :
    outstanding k (.check w ready elapse (.popped key) :: tr) = true ↔
      k ≠ key ∧ outstanding k tr = true := by
  have hdef : outstanding k (.check w ready elapse (.popped key) :: tr) =
      (!(key == k) && outstanding k tr) := rfl
  rw [hdef, Bool.and_eq_true, Bool.not_eq_true', beq_eq_false_iff_ne, ne_comm]

variable {config : WorkQueueConfig} {l : Label W Key}

theorem outstanding_quiet (hl : l.quiet = true) (k : Key)
    (tr : List (Label W Key)) : outstanding k (l :: tr) = outstanding k tr := by
  cases l <;> first | rfl | simp [Label.quiet] at hl

/-! ### The lock sections lose no key -/

section sections

variable {inner : WorkQueueInner Key} {R : Key → Prop} {k : Key}

theorem Consistent.represented_added (h : Consistent inner R) (key : Key)
    (hs : inner.shutdown = false) : represented (WorkQueue.add inner key).1 key := by
  rcases add_cases inner key with ⟨hno, heq⟩ | ⟨_, _, hp, heq⟩ | ⟨_, _, _, heq⟩ <;> rw [heq]
  · have hdirty : key ∈ inner.dirty := hno.resolve_left (by simp [hs])
    -- a dirty key is queued or being processed
    rcases (h.dirty _).mp hdirty with hq | ⟨hp, _⟩
    · exact .inl hq
    · exact .inr (.inr ⟨hdirty, hp⟩)
  · exact .inr (.inr ⟨Finset.mem_insert_self _ _, hp⟩)
  · exact .inl (mem_append_right _ (mem_singleton.mpr rfl))

variable (h : represented inner k)
include h

theorem represented.mono {inner' : WorkQueueInner Key}
    (hq : k ∈ inner.queue → k ∈ inner'.queue) (hdelayed : k ∈ inner.delayed → k ∈ inner'.delayed)
    (hdirty : k ∈ inner.dirty → k ∈ inner'.dirty)
    (hp : k ∈ inner.processing → k ∈ inner'.processing) : represented inner' k :=
  h.imp hq (Or.imp hdelayed (And.imp hdirty hp))

theorem represented_add (key : Key) : represented (add inner key).1 k := by
  rcases add_cases inner key with ⟨_, heq⟩ | ⟨_, _, _, heq⟩ | ⟨_, _, _, heq⟩ <;> rw [heq]
  · exact h
  · exact h.mono id id Finset.mem_insert_of_mem id
  · -- the one key taken out of `delayed` is the one put into the queue
    by_cases hk : k = key
    · exact .inl (mem_append_right _ (mem_singleton.mpr hk))
    · exact h.mono (mem_append_left _) (fun hd => AList.mem_erase.mpr ⟨hk, hd⟩)
        Finset.mem_insert_of_mem id

theorem represented_add_after (key : Key) (delay : Duration) (now : Instant) :
    represented (add_after inner key delay now).1 k := by
  rcases add_after_cases inner key delay now with heq | ⟨entry, heq⟩ <;> rw [heq]
  · exact h
  · exact h.imp_right (Or.imp_left fun hd => (AList.mem_insert _).mpr (.inr hd))

theorem Consistent.represented_promote_one (hc : Consistent inner R) (key : Key) :
    represented (WorkQueue.promote_one inner key) k := by
  by_cases hk : k = key
  · subst hk
    unfold WorkQueue.promote_one
    split_ifs with hdirty hproc
    · rcases (hc.dirty k).mp hdirty with hq | ⟨hp, _⟩
      · exact .inl hq
      · exact .inr (.inr ⟨hdirty, hp⟩)
    · exact .inr (.inr ⟨Finset.mem_insert_self _ _, hproc⟩)
    · exact .inl (mem_append_right _ (mem_singleton_self k))
  · have hkeep : k ∈ inner.delayed → k ∈ inner.delayed.erase key :=
      fun hd => AList.mem_erase.mpr ⟨hk, hd⟩
    unfold WorkQueue.promote_one
    split_ifs
    · exact h.mono id hkeep id id
    · exact h.mono id hkeep Finset.mem_insert_of_mem id
    · exact h.mono (mem_append_left _) hkeep Finset.mem_insert_of_mem id

theorem Consistent.represented_promote (hc : Consistent inner R) (ready : List Key) :
    represented (WorkQueue.promote inner ready) k := by
  induction ready generalizing inner R with
  | nil => exact h
  | cons key ready ih => exact ih (hc.represented_promote_one h key) (hc.promote_one key)

theorem represented_done (key : Key) (now : Instant) :
    represented (done inner key now).1 k := by
  rcases done_cases inner key now with ⟨hd, heq⟩ | ⟨_, deadline, heq⟩ | ⟨_, heq⟩ <;> rw [heq]
  · rcases h with hq | hdel | ⟨hdk, hp⟩
    · exact .inl hq
    · exact .inr (.inl hdel)
    · have hne : k ≠ key := by
        rintro rfl
        exact hd hdk
      exact .inr (.inr ⟨hdk, Finset.mem_erase.mpr ⟨hne, hp⟩⟩)
  · by_cases hk : k = key
    · exact .inr (.inl ((AList.mem_insert _).mpr (.inl hk)))
    · exact h.mono id (fun hdel => (AList.mem_insert _).mpr (.inr hdel))
        (Finset.mem_erase_of_ne_of_mem hk) (Finset.mem_erase_of_ne_of_mem hk)
  · by_cases hk : k = key
    · exact .inl (mem_append_right _ (mem_singleton.mpr hk))
    · exact h.mono (mem_append_left _) id id (Finset.mem_erase_of_ne_of_mem hk)

omit h in
/-- Nothing leaves the queue by `done`. -/
theorem mem_queue_done (h : k ∈ inner.queue) (key : Key) (now : Instant) :
    k ∈ (done inner key now).1.queue := by
  rcases done_cases inner key now with ⟨_, heq⟩ | ⟨_, _, heq⟩ | ⟨_, heq⟩ <;> rw [heq]
  · exact h
  · exact h
  · exact mem_append_left _ h

end sections

/-! ### No accepted key is lost -/

variable [DecidableEq W]

def Kept (tr : List (Label W Key)) (s : State W Key) : Prop :=
  ∀ k, outstanding k tr = true → represented s.inner k

variable {s s' : State W Key} {tr : List (Label W Key)}

/-- **Step lemma**: no step loses an outstanding key. -/
theorem Kept.step (hex : Exclusive tr s) (h : Kept tr s) (hstep : (work_queue config).step s l s') :
    Kept (l :: tr) s' := by
  intro k hk
  cases step_keys hstep with
  | @add key hinner _ =>
    rw [hinner]
    rcases (outstanding_add k key tr).mp hk with ⟨rfl, hs⟩ | hk
    · exact hex.consistent.represented_added k (hex.shut.trans hs)
    · exact represented_add (h k hk) key
  | @add_after key delay l hl hinner _ =>
    rw [hinner]
    refine represented_add_after (h k ?_) key delay s.clock
    rcases hl with rfl | rfl <;> exact hk
  | @check w ready elapse result _ _ hinner _ =>
    rcases check_and_pop_cases s.inner ready (s.clock + elapse) with
      ⟨_, _, heq⟩ | ⟨_, _, heq⟩ | ⟨key, rest, hq, heq⟩
    all_goals
      rw [hinner, Prod.mk.injEq] at heq
      obtain ⟨heq, rfl⟩ := heq
    · rw [heq]; exact h k hk
    · rw [heq]; exact hex.consistent.represented_promote (h k hk) ready
    · -- the key that leaves the queue is no longer outstanding
      obtain ⟨hne, hk⟩ := (outstanding_popped k key w ready elapse tr).mp hk
      rw [heq]
      rcases hex.consistent.represented_promote (h k hk) ready with hmem | hd | ⟨hd, hp⟩
      · rw [hq] at hmem
        exact .inl ((mem_cons.mp hmem).resolve_left hne)
      · exact .inr (.inl hd)
      · exact .inr (.inr ⟨Finset.mem_erase.mpr ⟨hne, hd⟩, Finset.mem_insert_of_mem hp⟩)
  | @done w key p _ _ hinner _ =>
    rw [hinner]
    exact represented_done (h k hk) key s.clock
  | shutdown hinner _ =>
    rw [hinner]
    exact h k hk
  | quiet hl hq =>
    rw [outstanding_quiet hl] at hk
    have hrep := h k hk
    unfold represented at hrep ⊢
    rw [hq.1.queue, hq.1.delayed, hq.1.dirty, hq.1.processing]
    exact hrep

/-- **Run lemma**: in every execution every outstanding key is represented. -/
theorem kept (h : Exec (work_queue config) tr s) : Kept tr s := by
  have hboth : Exclusive tr s ∧ Kept tr s := by
    refine Exec.invariant (I := fun tr s => Exclusive tr s ∧ Kept tr s) ?_ ?_ h
    · intro s h0
      exact ⟨exclusive (Exec.init h0), nofun⟩
    · intro tr s l s' hi hs
      exact ⟨hi.1.step hs, hi.2.step hi.1 hs⟩
  exact hboth.2

/-! ### When `None` means drained -/

/-- The condition on a `shutdown`: every outstanding key is in the queue and,
    if there is one, no worker is between the two sections of `get`. -/
def shutdown_covered (tr : List (Label W Key)) (s : State W Key) (l : Label W Key) : Prop :=
  l = .shutdown → ∀ k, outstanding k tr = true →
    k ∈ s.inner.queue ∧ ∀ w, s.pc w ≠ .deadline

/-- After a `shutdown`: what is outstanding is in the queue, and a worker that
    has found the queue empty has missed nothing. -/
def Covered (tr : List (Label W Key)) (s : State W Key) : Prop :=
  shut tr = true → ∀ k, outstanding k tr = true →
    k ∈ s.inner.queue ∧ ∀ w, s.pc w ≠ .deadline

/-- **Step lemma**: steps that meet the condition keep `Covered`. -/
theorem Covered.step (hex : Exclusive tr s) (h : Covered tr s) (hok : shutdown_covered tr s l)
    (hstep : (work_queue config).step s l s') : Covered (l :: tr) s' := by
  intro hs k hk
  cases step_keys hstep with
  | @add key hinner hpc =>
    -- an `add` after `shutdown` is refused
    have hshut : s.inner.shutdown = true := hex.shut.trans hs
    have hk' : outstanding k tr = true := by
      refine ((outstanding_add k key tr).mp hk).resolve_left fun hnew => ?_
      nomatch hs.symm.trans hnew.2
    have heq : (add s.inner key).1 = s.inner := by simp [add, hshut]
    rw [hinner, heq, hpc]
    exact h hs k hk'
  | @add_after key delay l hl hinner hpc =>
    have hpast : shut tr = true ∧ outstanding k tr = true := by
      rcases hl with rfl | rfl <;> exact ⟨hs, hk⟩
    have heq : (add_after s.inner key delay s.clock).1 = s.inner := by
      simp [add_after, hex.shut.trans hpast.1]
    rw [hinner, heq, hpc]
    exact h hpast.1 k hpast.2
  | @check w ready elapse result hat _ hinner hpc =>
    rcases check_and_pop_cases s.inner ready (s.clock + elapse) with
      ⟨_, hempty, heq⟩ | ⟨_, hempty, heq⟩ | ⟨key, rest, hq, heq⟩
    all_goals
      rw [hinner, Prod.mk.injEq] at heq
      obtain ⟨heq, rfl⟩ := heq
    · have hmem := (h hs k hk).1
      rw [hempty] at hmem
      nomatch hmem
    · -- promotion does not shorten the queue, so nothing was outstanding
      have hmem := mem_queue_promote (h hs k hk).1 ready
      rw [hempty] at hmem
      nomatch hmem
    · obtain ⟨hne, hk⟩ := (outstanding_popped k key w ready elapse tr).mp hk
      obtain ⟨hmem, hpcs⟩ := h hs k hk
      have hrest := mem_queue_promote hmem ready
      rw [hq] at hrest
      refine ⟨by rw [heq]; exact (mem_cons.mp hrest).resolve_left hne, fun v => ?_⟩
      rw [hpc]
      by_cases hv : v = w
      · subst hv
        simp [Checked.next]
      · rw [goto_pc_ne s w _ hv]
        exact hpcs v
  | @done w key p hat hp hinner hpc =>
    obtain ⟨hmem, hpcs⟩ := h hs k hk
    refine ⟨by rw [hinner]; exact mem_queue_done hmem key s.clock, fun v => ?_⟩
    rw [hpc]
    by_cases hv : v = w
    · subst hv
      rw [goto_pc_self]
      rintro rfl
      simp [Pc.away] at hp
    · rw [goto_pc_ne s w _ hv]
      exact hpcs v
  | shutdown hinner hpc =>
    rw [hinner, hpc]
    exact hok rfl k hk
  | quiet hl hq =>
    rw [shut_quiet hl] at hs
    rw [outstanding_quiet hl] at hk
    obtain ⟨hmem, hpcs⟩ := h hs k hk
    refine ⟨by rw [hq.1.queue]; exact hmem, fun v => ?_⟩
    rcases hq.2 v with heq | ⟨_, hto⟩
    · rw [heq]; exact hpcs v
    · intro hv
      rw [hv] at hto
      simp [Pc.away] at hto

/-- **Run lemma** for the executions that meet the condition. -/
theorem covered (h : ExecWhen (work_queue config) shutdown_covered tr s) : Covered tr s := by
  refine ExecWhen.invariant (J := Exclusive) (fun tr s hex => exclusive hex) ?_ ?_ h
  · intro s _ hs
    simp [shut] at hs
  · intro tr s l s' hex hi hok hs
    exact hi.step hex hok hs

/-- A `get` returns `None` only after `shutdown`, from a section that found the
    queue empty or from the second section. -/
theorem returns_none_cases (hstep : (work_queue config).step s l s') (hl : l.returns_none = true) :
    s.inner.shutdown = true ∧ (s.inner.queue = [] ∨ ∃ w, s.pc w = .deadline) := by
  match l with
  | .check w ready elapse .closed =>
    obtain ⟨_, _, hresult, _⟩ := hstep
    rcases check_and_pop_cases s.inner ready (s.clock + elapse) with
      ⟨hs, hq, _⟩ | ⟨_, _, heq⟩ | ⟨_, _, _, heq⟩
    · exact ⟨hs, .inl hq⟩
    · rw [heq] at hresult
      simp at hresult
    · rw [heq] at hresult
      simp at hresult
  | .deadline w true =>
    obtain ⟨hpc, ⟨_, hread, _⟩ | ⟨hno, _⟩⟩ := hstep
    · refine ⟨?_, .inr ⟨w, hpc⟩⟩
      by_contra hs
      simp [read_deadline, hs] at hread
    · nomatch hno

/-! ### Main results -/

/-- **No accepted key is lost**: in every execution an outstanding key is in
    the queue, in `delayed`, or dirty while being processed. In an execution
    each of whose `shutdown` steps is `shutdown_covered`, `get` moreover
    returns `None` only when no key is outstanding. -/
theorem get_none_only_drained (config : WorkQueueConfig) :
    (∀ (tr : List (Label W Key)) (s : State W Key), Exec (work_queue config) tr s →
      ∀ k, outstanding k tr = true → represented s.inner k) ∧
    (∀ (tr : List (Label W Key)) (s : State W Key),
      ExecWhen (work_queue config) shutdown_covered tr s →
      ∀ l s', (work_queue config).step s l s' → l.returns_none = true →
      ∀ k, outstanding k tr = false) := by
  refine ⟨fun tr s h => kept h, fun tr s h l s' hstep hl k => ?_⟩
  obtain ⟨hs, hwhere⟩ := returns_none_cases hstep hl
  by_contra hk
  rw [Bool.not_eq_false] at hk
  obtain ⟨hmem, hpcs⟩ := covered h ((exclusive h.exec).shut.symm.trans hs) k hk
  rcases hwhere with hq | ⟨w, hw⟩
  · rw [hq] at hmem
    nomatch hmem
  · exact absurd hw (hpcs w)

/-- A key queued at `shutdown` is handed out before `None` is. -/
theorem get_none_only_drained_queued :
    ∃ s s' : State Bool Nat,
      ExecWhen (work_queue ⟨5, 1000⟩) shutdown_covered
        [.call_get false, .check true [] 0 (.popped 7), .call_get true, .shutdown, .add 7] s ∧
      (work_queue ⟨5, 1000⟩).step s (.check false [] 0 .closed) s' ∧
      outstanding 7 [.call_get false, .check true [] 0 (.popped 7), .call_get true, .shutdown,
        (.add 7 : Label Bool Nat)] = false := by
  have hok : ∀ (tr : List (Label Bool Nat)) (s : State Bool Nat) (l : Label Bool Nat),
      l ≠ .shutdown → shutdown_covered tr s l := fun _ _ _ hl h => absurd h hl
  have hrun : ExecWhen (work_queue ⟨5, 1000⟩) shutdown_covered
      [.call_get false, .check true [] 0 (.popped 7), .call_get true, .shutdown, .add 7] _ :=
    .step (.step (.step (.step (.step (.init (rfl : _ = (State.initial : State Bool Nat)))
      (hok _ _ _ (by simp)) rfl)
      (fun _ k hk => by
        obtain ⟨rfl, _⟩ | hk := (outstanding_add k 7 []).mp hk
        · exact ⟨by decide, by decide⟩
        · exact absurd hk Bool.false_ne_true) rfl)
      (hok _ _ _ (by simp)) ⟨rfl, rfl⟩)
      (hok _ _ _ (by simp)) ⟨rfl, .refl _, rfl, rfl⟩)
      (hok _ _ _ (by simp)) ⟨rfl, rfl⟩
  refine ⟨_, _, hrun, ⟨rfl, .refl _, rfl, rfl⟩, ?_⟩
  exact (get_none_only_drained _).2 _ _ hrun (.check false [] 0 .closed) _
    ⟨rfl, .refl _, rfl, rfl⟩ rfl 7

/-- **Not drained**: a key is added again while a worker holds it, `done` comes
    within `MIN_REPROCESS_INTERVAL` and moves it to `delayed`, the queue is
    shut down, and the next `get` returns `None` with the second `add`
    accepted and never served. -/
theorem get_none_with_delayed_key :
    ∃ (tr : List (Label Bool Nat)) (s s' : State Bool Nat),
      Exec (work_queue ⟨5, 1000⟩) tr s ∧
      (work_queue ⟨5, 1000⟩).step s (.check false [] 0 .closed) s' ∧
      outstanding 7 tr = true := by
  have hrun : Exec (work_queue ⟨5, 1000⟩)
      [.call_get false, .shutdown, .done true 7, .add 7, .check true [] 0 (.popped 7),
        .call_get true, .add 7] _ :=
    .step (.step (.step (.step (.step (.step (.step
      (.init (rfl : _ = (State.initial : State Bool Nat))) rfl) ⟨rfl, rfl⟩)
      ⟨rfl, .refl _, rfl, rfl⟩) rfl) ⟨rfl, rfl⟩) rfl) ⟨rfl, rfl⟩
  exact ⟨_, _, _, hrun, ⟨rfl, .refl _, rfl, rfl⟩, by decide⟩

end WorkQueue
