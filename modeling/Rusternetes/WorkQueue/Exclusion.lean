import Rusternetes.WorkQueue.System

/-! # The Work Queue: Mutual Exclusion and No Duplication

    No key is handed to a worker while another worker holds it, the queue has
    no key twice, no key is both queued and being processed, and `dirty` is
    exactly the queued keys together with the keys in processing that were
    added again since they were handed out.

    "Added again" is read off the labels of the execution (`readded`): an `add`
    that was not refused, or the maturing of a delayed entry, after the last
    `get` that returned the key.

    ## Proof sketch

    `Consistent inner R` is the relation between `queue`, `dirty` and
    `processing`, with `R` the set of keys added again. Each lock section keeps
    it, with `R` changed as `readded` changes. `Exclusive` adds who holds what.
-/

open Finset LTS

namespace WorkQueue

variable {W Key : Type}

/-! ### The past, read off the labels (newest first) -/

/-- `shutdown` has been called. -/
def shut : List (Label W Key) → Bool
  | [] => false
  | .shutdown :: _ => true
  | _ :: tr => shut tr

variable {l : Label W Key}

theorem shut_quiet (hl : l.quiet = true) (tr : List (Label W Key)) : shut (l :: tr) = shut tr := by
  cases l <;> first | rfl | simp [Label.quiet] at hl

variable [DecidableEq Key]

/-- Since `k` was last handed out it was added again. -/
def readded (k : Key) : List (Label W Key) → Bool
  | [] => false
  | .add key :: tr => (key == k && !shut tr) || readded k tr
  | .check _ _ _ .closed :: tr => readded k tr
  | .check _ ready _ .empty :: tr => decide (k ∈ ready) || readded k tr
  | .check _ ready _ (.popped key) :: tr =>
      !(key == k) && (decide (k ∈ ready) || readded k tr)
  | _ :: tr => readded k tr

theorem readded_add (k key : Key) (tr : List (Label W Key)) :
    readded k (.add key :: tr) = true ↔ (k = key ∧ shut tr = false) ∨ readded k tr = true := by
  have hdef : readded k (.add key :: tr) = ((key == k && !shut tr) || readded k tr) := rfl
  rw [hdef, Bool.or_eq_true, Bool.and_eq_true, beq_iff_eq, Bool.not_eq_true', eq_comm (a := key)]

theorem readded_popped (k key : Key) (w : W) (ready : List Key) (elapse : Duration)
    (tr : List (Label W Key)) :
    readded k (.check w ready elapse (.popped key) :: tr) = true ↔
      k ≠ key ∧ (k ∈ ready ∨ readded k tr = true) := by
  have hdef : readded k (.check w ready elapse (.popped key) :: tr) =
      (!(key == k) && (decide (k ∈ ready) || readded k tr)) := rfl
  rw [hdef, Bool.and_eq_true, Bool.not_eq_true', beq_eq_false_iff_ne, Bool.or_eq_true,
    decide_eq_true_iff, ne_comm]

theorem readded_quiet (hl : l.quiet = true) (k : Key) (tr : List (Label W Key)) :
    readded k (l :: tr) = readded k tr := by
  cases l <;> first | rfl | simp [Label.quiet] at hl

/-! ### Consistency of the three sets -/

/-- The sets of one queue state agree, `R` being the keys added again since
    they were handed out. -/
structure Consistent (inner : WorkQueueInner Key) (R : Key → Prop) : Prop where
  nodup : inner.queue.Nodup
  disjoint : ∀ k, k ∈ inner.queue → k ∉ inner.processing
  dirty : ∀ k, k ∈ inner.dirty ↔ k ∈ inner.queue ∨ (k ∈ inner.processing ∧ R k)

namespace Consistent

variable {inner inner' : WorkQueueInner Key} {R R' : Key → Prop}

section consistent

variable (h : Consistent inner R)

include h

/-- Only the three sets matter, and `R` only on keys in processing. -/
theorem congr (hq : inner'.queue = inner.queue) (hd : inner'.dirty = inner.dirty)
    (hp : inner'.processing = inner.processing) (hR : ∀ k, k ∈ inner.processing → (R' k ↔ R k)) : Consistent inner' R' := by
  refine ⟨by rw [hq]; exact h.nodup, by rw [hq, hp]; exact h.disjoint, fun k => ?_⟩
  rw [hq, hd, hp, h.dirty k]
  constructor
  · rintro (hk | ⟨hk, hr⟩)
    · exact .inl hk
    · exact .inr ⟨hk, (hR k hk).mpr hr⟩
  · rintro (hk | ⟨hk, hr⟩)
    · exact .inl hk
    · exact .inr ⟨hk, (hR k hk).mp hr⟩

theorem of_iff (hR : ∀ k, R' k ↔ R k) : Consistent inner R' :=
  h.congr rfl rfl rfl fun k _ => hR k

variable {key : Key}

theorem readd_dirty (hkey : key ∈ inner.dirty) : Consistent inner (fun k => k = key ∨ R k) := by
  refine h.congr rfl rfl rfl fun k hk => ⟨?_, .inr⟩
  rintro (rfl | hr)
  · rcases (h.dirty k).mp hkey with hq | ⟨_, hr⟩
    · exact absurd hk (h.disjoint k hq)
    · exact hr
  · exact hr

theorem of_others (key : Key) (hnodup : inner'.queue.Nodup)
    (hothers : ∀ k, k ≠ key → (k ∈ inner'.queue ↔ k ∈ inner.queue) ∧
      (k ∈ inner'.dirty ↔ k ∈ inner.dirty) ∧ (k ∈ inner'.processing ↔ k ∈ inner.processing) ∧
      (R' k ↔ R k))
    (hdisjoint : key ∈ inner'.queue → key ∉ inner'.processing)
    (hdirty : key ∈ inner'.dirty ↔ key ∈ inner'.queue ∨ key ∈ inner'.processing ∧ R' key) :
    Consistent inner' R' := by
  refine ⟨hnodup, fun k => ?_, fun k => ?_⟩
  · by_cases hk : k = key
    · exact hk ▸ hdisjoint
    · obtain ⟨hq, -, hp, -⟩ := hothers k hk
      rw [hq, hp]
      exact h.disjoint k
  · by_cases hk : k = key
    · exact hk ▸ hdirty
    · obtain ⟨hq, hd, hp, hR⟩ := hothers k hk
      rw [hq, hd, hp, hR]
      exact h.dirty k

theorem mark (hp : key ∈ inner.processing) (hq : inner'.queue = inner.queue)
    (hd : inner'.dirty = insert key inner.dirty) (hp' : inner'.processing = inner.processing) :
    Consistent inner' (fun k => k = key ∨ R k) := by
  refine h.of_others key (by rw [hq]; exact h.nodup) ?_ (by rw [hq, hp']; exact h.disjoint key) ?_
  · intro k hk
    simp [hq, hd, hp', hk]
  · simp [hd, hp', hp]

theorem push (hdirty : key ∉ inner.dirty) (hp : key ∉ inner.processing)
    (hq : inner'.queue = inner.queue ++ [key]) (hd : inner'.dirty = insert key inner.dirty)
    (hp' : inner'.processing = inner.processing) :
    Consistent inner' (fun k => k = key ∨ R k) := by
  have hnew : key ∉ inner.queue := fun hk => hdirty ((h.dirty key).mpr (.inl hk))
  refine h.of_others key ?_ ?_ (fun _ => by rwa [hp']) ?_
  · rw [hq]
    exact h.nodup.append (List.nodup_singleton key) (by simpa using hnew)
  · intro k hk
    simp [hq, hd, hp', hk]
  · simp [hq, hd]

/-! ### The lock sections keep it -/

theorem add (key : Key) :
    Consistent (WorkQueue.add inner key).1
      (fun k => (k = key ∧ inner.shutdown = false) ∨ R k) := by
  have hiff : inner.shutdown = false →
      ∀ k, ((k = key ∧ inner.shutdown = false) ∨ R k ↔ k = key ∨ R k) := by
    intro hs k
    rw [and_iff_left hs]
  rcases add_cases inner key with ⟨hno, heq⟩ | ⟨hs, hd, hp, heq⟩ | ⟨hs, hd, hp, heq⟩
  · rw [heq]
    by_cases hs : inner.shutdown = true
    · exact h.of_iff fun k => by simp [hs]
    · have hs' : inner.shutdown = false := by simpa using hs
      have hdirty := hno.resolve_left hs
      exact (h.readd_dirty hdirty).of_iff (hiff hs')
  · rw [heq]
    refine of_iff ?_ (hiff hs)
    exact h.mark hp rfl rfl rfl
  · rw [heq]
    refine of_iff ?_ (hiff hs)
    exact h.push hd hp rfl rfl rfl

theorem add_after (key : Key) (delay : Duration) (now : Instant) :
    Consistent (WorkQueue.add_after inner key delay now).1 R := by
  rcases add_after_cases inner key delay now with heq | ⟨entry, heq⟩
  · rw [heq]; exact h
  · rw [heq]; exact h.congr rfl rfl rfl fun _ _ => Iff.rfl

theorem promote_one (key : Key) :
    Consistent (WorkQueue.promote_one inner key) (fun k => k = key ∨ R k) := by
  unfold WorkQueue.promote_one
  split_ifs with hd hp
  · exact (h.readd_dirty hd).congr rfl rfl rfl fun _ _ => Iff.rfl
  · exact h.mark hp rfl rfl rfl
  · exact h.push hd hp rfl rfl rfl

/-- The promotion loop: every matured key counts as added again. -/
theorem promote (ready : List Key) :
    Consistent (WorkQueue.promote inner ready) (fun k => k ∈ ready ∨ R k) := by
  induction ready generalizing inner R with
  | nil => exact h.of_iff fun k => by simp
  | cons key ready ih =>
    refine (ih (h.promote_one key)).of_iff fun k => ?_
    rw [List.mem_cons]
    tauto

/-- Dequeuing: the key moves to `processing` and starts afresh. -/
theorem pop {rest : List Key} (hq : inner.queue = key :: rest) (hq' : inner'.queue = rest)
    (hd : inner'.dirty = inner.dirty.erase key)
    (hp : inner'.processing = insert key inner.processing) :
    Consistent inner' (fun k => k ≠ key ∧ R k) := by
  have hnodup : key ∉ rest ∧ rest.Nodup := List.nodup_cons.mp (hq ▸ h.nodup)
  refine h.of_others key (by rw [hq']; exact hnodup.2) ?_ ?_ ?_
  · intro k hk
    simp [hq, hq', hd, hp, hk]
  · rw [hq']
    exact fun hk => absurd hk hnodup.1
  · simp [hq', hd, hnodup.1]

theorem done (hkey : key ∈ inner.processing) (now : Instant) :
    Consistent (WorkQueue.done inner key now).1 R := by
  have hnew : key ∉ inner.queue := fun hk => h.disjoint key hk hkey
  rcases done_cases inner key now with ⟨hd, heq⟩ | ⟨hd, deadline, heq⟩ | ⟨hd, heq⟩ <;> rw [heq]
  · -- not dirty: the key leaves processing
    refine h.of_others key h.nodup ?_ (fun _ => notMem_erase key _) ?_
    · intro k hk
      simp [hk]
    · simp [hd, hnew]
  · -- dirty, too soon: the key goes to `delayed`
    refine h.of_others key h.nodup ?_ (fun _ => notMem_erase key _) ?_
    · intro k hk
      simp [hk]
    · simp [hnew]
  · -- dirty: the key moves from processing to the tail of the queue
    refine h.of_others key ?_ ?_ (fun _ => notMem_erase key _) ?_
    · exact h.nodup.append (List.nodup_singleton key) (by simpa using hnew)
    · intro k hk
      simp [hk]
    · simp [hd]

end consistent

end Consistent

/-! ### Who holds what -/

variable [DecidableEq W]

structure Holding (processing : Finset Key) (pc : W → Pc Key) : Prop where
  held : ∀ k, k ∈ processing ↔ ∃ w, pc w = .working k
  unique : ∀ w w' k, pc w = .working k → pc w' = .working k → w = w'

namespace Holding

variable {processing : Finset Key} {s : State W Key} {w : W} {p : Pc Key}

theorem goto_working_iff {v : W} {k : Key} : (s.goto w p).pc v = .working k ↔
    v = w ∧ p = .working k ∨ v ≠ w ∧ s.pc v = .working k := by
  by_cases hv : v = w
  · subst hv
    simp
  · simp [goto_pc_ne s w p hv, hv]

variable (h : Holding processing s.pc)
include h

theorem congr {pc' : W → Pc Key} (hpc : ∀ v k, pc' v = .working k ↔ s.pc v = .working k) :
    Holding processing pc' := by
  refine ⟨fun k => ?_, fun v v' k hv hv' => ?_⟩
  · rw [h.held k]
    exact exists_congr fun v => (hpc v k).symm
  · exact h.unique v v' k ((hpc v k).mp hv) ((hpc v' k).mp hv')

theorem move (hfrom : ∀ k, s.pc w ≠ .working k) (hto : ∀ k, p ≠ .working k) :
    Holding processing (s.goto w p).pc := by
  refine h.congr fun v k => ?_
  rw [goto_working_iff]
  constructor
  · rintro (⟨_, hk⟩ | ⟨_, hk⟩)
    · exact absurd hk (hto k)
    · exact hk
  · intro hk
    refine .inr ⟨?_, hk⟩
    rintro rfl
    exact hfrom k hk

theorem take {key : Key} (hkey : key ∉ processing) (hfrom : ∀ k, s.pc w ≠ .working k) :
    Holding (insert key processing) (s.goto w (.working key)).pc := by
  have hfree : ∀ v, s.pc v ≠ .working key := fun v hv => hkey ((h.held key).mpr ⟨v, hv⟩)
  refine ⟨fun k => ?_, fun v v' k hv hv' => ?_⟩
  · rw [mem_insert, h.held k]
    constructor
    · rintro (rfl | ⟨v, hv⟩)
      · exact ⟨w, goto_pc_self s w _⟩
      · refine ⟨v, goto_working_iff.mpr (.inr ⟨?_, hv⟩)⟩
        rintro rfl
        exact hfrom k hv
    · rintro ⟨v, hv⟩
      rcases goto_working_iff.mp hv with ⟨_, hk⟩ | ⟨_, hv⟩
      · exact .inl (Pc.working.inj hk).symm
      · exact .inr ⟨v, hv⟩
  · -- the new holder is the only one: nobody held `key` before
    rcases goto_working_iff.mp hv with ⟨hvw, hk⟩ | ⟨_, ho⟩ <;>
      rcases goto_working_iff.mp hv' with ⟨hvw', hk'⟩ | ⟨_, ho'⟩
    · exact hvw.trans hvw'.symm
    · exact absurd (ho'.trans hk.symm) (hfree v')
    · exact absurd (ho.trans hk'.symm) (hfree v)
    · exact h.unique v v' k ho ho'

theorem release {key : Key} (hfrom : s.pc w = .working key) (hto : ∀ k, p ≠ .working k) :
    Holding (processing.erase key) (s.goto w p).pc := by
  have hiff : ∀ v k, (s.goto w p).pc v = .working k ↔ v ≠ w ∧ s.pc v = .working k :=
    fun v k => goto_working_iff.trans (or_iff_right fun hk => hto k hk.2)
  refine ⟨fun k => ?_, fun v v' k hv hv' => ?_⟩
  · rw [mem_erase, h.held k]
    constructor
    · rintro ⟨hne, v, hv⟩
      refine ⟨v, (hiff v k).mpr ⟨?_, hv⟩⟩
      rintro rfl
      exact hne (Pc.working.inj (hv.symm.trans hfrom))
    · rintro ⟨v, hv⟩
      obtain ⟨hvw, hv⟩ := (hiff v k).mp hv
      refine ⟨?_, v, hv⟩
      rintro rfl
      exact hvw (h.unique v w k hv hfrom)
  · exact h.unique v v' k ((hiff v k).mp hv).2 ((hiff v' k).mp hv').2

end Holding

/-! ### The invariant -/

/-- The state of the component: the sets agree with each other, with the past
    and with the workers. -/
structure Exclusive (tr : List (Label W Key)) (s : State W Key) : Prop where
  shut : s.inner.shutdown = shut tr
  consistent : Consistent s.inner (fun k => readded k tr = true)
  holding : Holding s.inner.processing s.pc

omit [DecidableEq Key] [DecidableEq W] in
theorem Pc.ne_working_of_away {p : Pc Key} (hp : p.away = true) (k : Key) : p ≠ .working k := by
  rintro rfl
  simp [Pc.away] at hp

variable {s s' : State W Key}

theorem QuietStep.working_iff (h : QuietStep s s') (w : W) (k : Key) :
    s'.pc w = .working k ↔ s.pc w = .working k := by
  rcases h.2 w with heq | ⟨hfrom, hto⟩
  · rw [heq]
  · refine ⟨fun hk => absurd hk (Pc.ne_working_of_away hto k), fun hk => ?_⟩
    rw [hk] at hfrom
    simp [Pc.away] at hfrom

variable {tr : List (Label W Key)}

/-- The first section of `get` keeps the invariant. -/
theorem Exclusive.check {w : W} {ready : List Key} {elapse : Duration} {result : Checked Key}
    (h : Exclusive tr s) (hat : s.pc w = .check)
    (hinner : check_and_pop s.inner ready (s.clock + elapse) = (s'.inner, result))
    (hpc : s'.pc = (s.goto w result.next).pc) :
    Exclusive (.check w ready elapse result :: tr) s' := by
  have hfrom : ∀ k, s.pc w ≠ .working k := by simp [hat]
  rcases check_and_pop_cases s.inner ready (s.clock + elapse) with
    ⟨_, _, heq⟩ | ⟨_, _, heq⟩ | ⟨key, rest, hq, heq⟩
  all_goals
    rw [hinner, Prod.mk.injEq] at heq
    obtain ⟨heq, rfl⟩ := heq
  · refine ⟨?_, ?_, ?_⟩
    · rw [heq]; exact h.shut
    · rw [heq]; exact h.consistent
    · rw [heq, hpc]; exact h.holding.move hfrom (by simp [Checked.next])
  · refine ⟨?_, ?_, ?_⟩
    · rw [heq, promote_shutdown]; exact h.shut
    · rw [heq]
      exact (h.consistent.promote ready).of_iff fun k => by simp [readded]
    · rw [heq, promote_processing, hpc]
      exact h.holding.move hfrom (by simp [Checked.next])
  · -- a key of the queue is not in processing, so nobody holds it
    have hprom := h.consistent.promote ready
    have hfree : key ∉ s.inner.processing := by
      rw [← promote_processing s.inner ready]
      exact hprom.disjoint key (by rw [hq]; exact .head _)
    refine ⟨?_, ?_, ?_⟩
    · rw [heq]
      exact (promote_shutdown s.inner ready).trans h.shut
    · rw [heq]
      refine Consistent.of_iff (hprom.pop hq rfl rfl rfl) fun k => ?_
      rw [readded_popped]
    · rw [heq, hpc]
      simp only [promote_processing]
      exact h.holding.take hfree hfrom

/-- **Step lemma**: every step keeps the invariant. -/
theorem Exclusive.step {config : WorkQueueConfig} (h : Exclusive tr s)
    (hstep : (work_queue config).step s l s') : Exclusive (l :: tr) s' := by
  cases step_keys hstep with
  | @add key hinner hpc =>
    refine ⟨?_, ?_, ?_⟩
    · rw [hinner, add_shutdown]; exact h.shut
    · rw [hinner]
      refine (h.consistent.add key).of_iff fun k => ?_
      rw [h.shut, readded_add]
    · rw [hinner, add_processing, hpc]; exact h.holding
  | @add_after key delay l hl hinner hpc =>
    have hpast : WorkQueue.shut (l :: tr) = WorkQueue.shut tr ∧
        ∀ k, readded k (l :: tr) = readded k tr := by
      rcases hl with rfl | rfl <;> exact ⟨rfl, fun _ => rfl⟩
    refine ⟨?_, ?_, ?_⟩
    · rw [hinner, add_after_shutdown, hpast.1]; exact h.shut
    · rw [hinner]
      exact (h.consistent.add_after key delay s.clock).of_iff fun k => by rw [hpast.2 k]
    · rw [hinner, add_after_processing, hpc]; exact h.holding
  | check hat _ hinner hpc => exact h.check hat hinner hpc
  | @done w key p hat hp hinner hpc =>
    have hkey : key ∈ s.inner.processing := (h.holding.held key).mpr ⟨w, hat⟩
    refine ⟨?_, ?_, ?_⟩
    · rw [hinner, done_shutdown]; exact h.shut
    · rw [hinner]; exact h.consistent.done hkey s.clock
    · rw [hinner, done_processing, hpc]
      exact h.holding.release hat (Pc.ne_working_of_away hp)
  | shutdown hinner hpc =>
    refine ⟨?_, ?_, ?_⟩
    · rw [hinner]; rfl
    · rw [hinner]; exact h.consistent.congr rfl rfl rfl fun _ _ => Iff.rfl
    · rw [hinner, hpc]; exact h.holding
  | quiet hl hq =>
    refine ⟨?_, ?_, ?_⟩
    · rw [hq.1.shutdown, shut_quiet hl]; exact h.shut
    · exact h.consistent.congr hq.1.queue hq.1.dirty hq.1.processing
        fun k _ => by rw [readded_quiet hl]
    · rw [hq.1.processing]
      exact h.holding.congr hq.working_iff

/-- **Run lemma**: the invariant holds throughout every execution. -/
theorem exclusive {config : WorkQueueConfig} (h : Exec (work_queue config) tr s) :
    Exclusive tr s := by
  refine Exec.invariant ?_ (fun tr s l s' hi hs => hi.step hs) h
  rintro s rfl
  refine ⟨rfl, ⟨List.nodup_nil, ?_, ?_⟩, ⟨?_, ?_⟩⟩
  · simp [State.initial, WorkQueueInner.new]
  · simp [State.initial, WorkQueueInner.new]
  · simp [State.initial, WorkQueueInner.new]
  · simp [State.initial]

/-! ### Main results -/

/-- **Mutual exclusion and no duplication**: in every execution of any number
    of workers and producers, `get` never hands out a key that a worker holds,
    no two workers hold one key, the queue holds no key twice and none that is
    being processed, and `dirty` is exactly the queued keys and the keys in
    processing that were added again since they were handed out. -/
theorem work_queue_exclusive (config : WorkQueueConfig) (tr : List (Label W Key))
    (s : State W Key) (h : Exec (work_queue config) tr s) :
    (∀ w ready elapse k s', (work_queue config).step s (.check w ready elapse (.popped k)) s' →
      ∀ w', s.pc w' ≠ .working k) ∧
    (∀ w w' k, s.pc w = .working k → s.pc w' = .working k → w = w') ∧
    s.inner.queue.Nodup ∧
    (∀ k, ¬ (k ∈ s.inner.queue ∧ k ∈ s.inner.processing)) ∧
    (∀ k, k ∈ s.inner.dirty ↔
      k ∈ s.inner.queue ∨ (k ∈ s.inner.processing ∧ readded k tr = true)) := by
  have hex := exclusive h
  refine ⟨?_, hex.holding.unique, hex.consistent.nodup, ?_, hex.consistent.dirty⟩
  · intro w ready elapse k s' hstep w' hw'
    -- after the step `w` holds `k`, and `w'`, which is another worker, still does
    have hat : s.pc w = .check := hstep.1
    have hne : w' ≠ w := by
      rintro rfl
      rw [hat] at hw'
      cases hw'
    have hpc : s'.pc = (s.goto w (.working k)).pc := by
      obtain ⟨_, _, _, rfl⟩ := hstep
      rfl
    refine hne ((hex.step hstep).holding.unique w' w k ?_ ?_)
    · rw [hpc, goto_pc_ne s w _ hne]
      exact hw'
    · rw [hpc, goto_pc_self]
  · rintro k ⟨hq, hp⟩
    exact hex.consistent.disjoint k hq hp

/-- A key added again while a worker holds it. -/
theorem work_queue_exclusive_readd :
    ∃ s : State Bool Nat,
      Exec (work_queue ⟨5, 1000⟩)
        [.add 7, .check true [] 0 (.popped 7), .call_get true, .add 7] s ∧
      7 ∈ s.inner.dirty ∧ 7 ∉ s.inner.queue ∧ s.pc true = .working 7 ∧
      s.pc false ≠ .working 7 := by
  have hrun : Exec (work_queue ⟨5, 1000⟩)
      [.add 7, .check true [] 0 (.popped 7), .call_get true, .add 7] _ :=
    .step (.step (.step (.step (.init (rfl : _ = (State.initial : State Bool Nat))) rfl)
      ⟨rfl, rfl⟩) ⟨rfl, .refl _, rfl, rfl⟩) rfl
  refine ⟨_, hrun, by decide, by decide, by decide, fun hfalse => ?_⟩
  nomatch (work_queue_exclusive _ _ _ hrun).2.1 true false 7 (by decide) hfalse

end WorkQueue
