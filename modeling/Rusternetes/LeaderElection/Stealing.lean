import Rusternetes.Framework.Folds
import Rusternetes.LeaderElection.Elector

/-! # Leases Are Not Stolen

    A write over a record of another holder is legitimate if the writer has known that
    very record for as long as the lease lasts. An elector writes on what it observed,
    but the version that guards the write is that of the Lease its lock saw last, and
    `release` refreshes the second without the first: from then on an elector that still
    takes itself for the leader is *deceived*, and may write over whatever the Lease says.

    The invariant ties the two together wherever an elector waits for a write; apart from
    deception it is what makes every write over another's record legitimate.
-/

open Framework LTS

namespace LeaderElection

/-! ### Notions -/

/-- The record is held by another. -/
def Foreign (cfg : Config) (r : LeaderElectionRecord) : Prop :=
  r.holder_identity ≠ "" ∧ r.holder_identity ≠ cfg.identity

/-- The elector observed the record, first at the time it remembers, and its clock is past
    the end of the lease counted from there. -/
structure Legitimate (e : Elector) (r : LeaderElectionRecord) : Prop where
  observed : e.observed.record = r
  seen : (r, e.observed.time) ∈ e.seen
  expired : e.observed.time + r.lease_duration_seconds.toInt * second ≤ e.clock

/-- The elector takes itself for the leader, and its lock saw another's record. -/
def Deceived (cfg : Config) (e : Elector) : Prop :=
  e.is_leader cfg = true ∧ ∃ lease, e.lease = some lease ∧ Foreign cfg (record_of lease)

theorem not_leader_of_foreign {cfg : Config} {e : Elector}
    (h : Foreign cfg e.observed.record) : e.is_leader cfg = false :=
  beq_eq_false_iff_ne.mpr h.2

/-! ### What an elector does in a step -/

/-- One turn of an elector: the Lease and the elector before it, the label, and both after
    it. -/
inductive Turn {ι : Type} (cfg : Config) (i : ι) (c : Cell (Option LeaseSpec)) (e : Elector) :
    Label ι → Cell (Option LeaseSpec) → Elector → Prop
  | tries (clock : Time) (hclock : e.clock ≤ clock) :
      Turn cfg i c e (.try_acquire_or_renew i clock) c
        ({ e with clock := clock }.try_acquire_or_renew cfg clock)
  | releases : Turn cfg i c e (.release i) c { e with phase := .release_getting }
  | got {now : Time} {record : LeaderElectionRecord} {lease : Lease} (clock : Time)
      (hclock : e.clock ≤ clock) (hphase : e.phase = .getting now record)
      (hlease : c.content = some lease) :
      Turn cfg i c e (.get i clock .arrives) c
        ({ e with clock := clock }.got cfg now record lease clock)
  | missing {now : Time} {record : LeaderElectionRecord} (clock : Time) (hclock : e.clock ≤ clock)
      (hphase : e.phase = .getting now record) :
      Turn cfg i c e (.get i clock .arrives) c { e with clock := clock, phase := .creating record }
  | release_got {lease : Lease} (clock : Time) (hclock : e.clock ≤ clock)
      (hphase : e.phase = .release_getting) (hlease : c.content = some lease) :
      Turn cfg i c e (.get i clock .arrives) c
        ({ e with clock := clock }.release_got cfg lease clock)
  /-- It gives up, or its write fails. -/
  | stops (l : Label ι) (hl : l.elector = i) (clock : Time) (hclock : e.clock ≤ clock) :
      Turn cfg i c e l c { e with clock := clock, phase := .idle }
  | failed (clock : Time) (answer : Answer) (hclock : e.clock ≤ clock) :
      Turn cfg i c e (.update i clock answer) c { e with clock := clock }.update_failed
  | created {record : LeaderElectionRecord} (clock : Time) (hclock : e.clock ≤ clock)
      (hphase : e.phase = .creating record) (hnone : c.content = none) :
      Turn cfg i c e (.create i clock .arrives) (c.put (put_record c record).value)
        ({ e with clock := clock }.written record (put_record c record) clock)
  | create_lost {record : LeaderElectionRecord} (clock : Time) (hclock : e.clock ≤ clock)
      (hphase : e.phase = .creating record) (hnone : c.content = none) :
      Turn cfg i c e (.create i clock .lost) (c.put (put_record c record).value)
        { e with clock := clock, phase := .idle }
  | updated {record : LeaderElectionRecord} {lease : Lease} (clock : Time)
      (hclock : e.clock ≤ clock) (hpending : e.pending = some record)
      (hlease : e.lease = some lease) (hcurrent : c.content.map Versioned.revision = some lease.revision) :
      Turn cfg i c e (.update i clock .arrives) (c.put (put_record c record).value)
        ({ e with clock := clock }.written record (put_record c record) clock)
  | update_lost {record : LeaderElectionRecord} {lease : Lease} (clock : Time)
      (hclock : e.clock ≤ clock) (hpending : e.pending = some record)
      (hlease : e.lease = some lease) (hcurrent : c.content.map Versioned.revision = some lease.revision) :
      Turn cfg i c e (.update i clock .lost) (c.put (put_record c record).value)
        { e with clock := clock }.update_failed

section steps

variable {ι : Type} [DecidableEq ι] {cfg : ι → Config} {s s' : State ι} {l : Label ι}

variable {e : Elector}

theorem tick_eq_some {e' : Elector} {clock : Time} (h : e.tick clock = some e') :
    e.clock ≤ clock ∧ e' = { e with clock := clock } := by
  unfold Elector.tick at h
  split_ifs at h with hclock
  exact ⟨hclock, (Option.some.inj h).symm⟩

theorem free_eq_some {e' : Elector} (h : e.free = some e') : e.phase = .idle ∧ e' = e := by
  unfold Elector.free at h
  split at h
  · next hphase => exact ⟨hphase, (Option.some.inj h).symm⟩
  · cases h

theorem pending_cases {record : LeaderElectionRecord} (h : e.pending = some record) :
    (∃ now, e.phase = .renewing now record) ∨ (∃ now, e.phase = .updating now record) ∨
      e.phase = .releasing record := by
  unfold Elector.pending at h
  split at h
  · next now _ hphase =>
    cases h
    exact .inl ⟨now, hphase⟩
  · next now _ hphase =>
    cases h
    exact .inr (.inl ⟨now, hphase⟩)
  · next hphase =>
    cases h
    exact .inr (.inr hphase)
  · cases h

/-- **Every step is a turn of its elector.** -/
theorem turn_of_next (h : next cfg s l = some s') :
    ∃ e', s'.elector = Function.update s.elector l.elector e' ∧
      Turn (cfg l.elector) l.elector s.lease (s.elector l.elector) l s'.lease e' := by
  cases l with
  | try_acquire_or_renew i clock =>
    obtain ⟨e, hfree, h⟩ := Option.bind_eq_some_iff.mp h
    obtain ⟨e₁, htick, h⟩ := Option.bind_eq_some_iff.mp h
    cases h
    obtain ⟨-, rfl⟩ := free_eq_some hfree
    obtain ⟨hclock, rfl⟩ := tick_eq_some htick
    exact ⟨_, rfl, .tries clock hclock⟩
  | release i =>
    obtain ⟨e, hfree, h⟩ := Option.bind_eq_some_iff.mp h
    cases h
    obtain ⟨-, rfl⟩ := free_eq_some hfree
    exact ⟨_, rfl, .releases⟩
  | get _ clock =>
    obtain ⟨e, htick, h⟩ := Option.bind_eq_some_iff.mp h
    obtain ⟨e₁, hget, h⟩ := Option.bind_eq_some_iff.mp h
    cases h
    obtain ⟨hclock, rfl⟩ := tick_eq_some htick
    refine ⟨e₁, rfl, ?_⟩
    unfold Elector.get_answered at hget
    split at hget
    · next now record hphase =>
      split_ifs at hget with hanswer
      · subst hanswer
        split at hget
        · next lease hlease =>
          cases hget
          exact .got clock hclock hphase hlease
        · cases hget
          exact .missing clock hclock hphase
      · cases hget
        exact .stops _ rfl clock hclock
    · next hphase =>
      split_ifs at hget with hanswer
      · subst hanswer
        split at hget
        · next lease hlease =>
          cases hget
          exact .release_got clock hclock hphase hlease
        · cases hget
          exact .stops _ rfl clock hclock
      · cases hget
        exact .stops _ rfl clock hclock
    · cases hget
  | create i clock answer =>
    obtain ⟨e, htick, h⟩ := Option.bind_eq_some_iff.mp h
    obtain ⟨hclock, rfl⟩ := tick_eq_some htick
    split at h
    · next record hphase =>
      cases h
      refine ⟨_, rfl, ?_⟩
      dsimp only [create_answered]
      split
      · rename_i hput
        obtain ⟨hnone, hanswer⟩ := Bool.and_eq_true_iff.mp hput
        cases answer with
        | arrives => exact .created clock hclock hphase (Option.isNone_iff_eq_none.mp hnone)
        | lost => exact .create_lost clock hclock hphase (Option.isNone_iff_eq_none.mp hnone)
        | fails => exact absurd rfl (of_decide_eq_true hanswer)
      · exact .stops _ rfl clock hclock
    · cases h
  | update i clock answer =>
    obtain ⟨e, htick, h⟩ := Option.bind_eq_some_iff.mp h
    obtain ⟨record, hpending, h⟩ := Option.bind_eq_some_iff.mp h
    obtain ⟨hclock, rfl⟩ := tick_eq_some htick
    cases h
    refine ⟨_, rfl, ?_⟩
    dsimp only [update_answered]
    split
    · exact .failed clock answer hclock
    · next lease hlease =>
      split
      · rename_i hput
        obtain ⟨hcurrent, hanswer⟩ := Bool.and_eq_true_iff.mp hput
        cases answer with
        | arrives => exact .updated clock hclock hpending hlease (of_decide_eq_true hcurrent)
        | lost => exact .update_lost clock hclock hpending hlease (of_decide_eq_true hcurrent)
        | fails => exact absurd rfl (of_decide_eq_true hanswer)
      · exact .failed clock answer hclock
  | cancel i =>
    cases h
    exact ⟨_, rfl, .stops _ rfl (s.elector i).clock (Int.le_refl _)⟩

end steps

/-! ### What holds of an elector -/

def Waits (cfg : Config) (e : Elector) : Prop :=
  match e.phase with
  | .idle => True
  | .renewing now record => now ≤ e.clock ∧ ¬Foreign cfg record ∧ e.is_leader cfg = true
  | .getting now record => now ≤ e.clock ∧ ¬Foreign cfg record
  | .creating record => ¬Foreign cfg record
  -- the Lease that guards the write holds the record the decision was made on
  | .updating now record => now ≤ e.clock ∧ ¬Foreign cfg record ∧
      (∃ lease, e.lease = some lease ∧ record_of lease = e.observed.record) ∧
      (Foreign cfg e.observed.record → e.is_lease_valid now = false)
  | .release_getting => True
  | .releasing record => ¬Foreign cfg record ∧ e.is_leader cfg = true

/-- The invariant of an elector. -/
structure Consistent (cfg : Config) (c : Cell (Option LeaseSpec)) (e : Elector) : Prop where
  lease : ∀ lease, e.lease = some lease → c.Recorded lease
  seen : Foreign cfg e.observed.record → (e.observed.record, e.observed.time) ∈ e.seen
  waits : Waits cfg e

section turns

variable {cfg : Config} {c c' : Cell (Option LeaseSpec)} {e : Elector}

theorem not_foreign_of_holder {r : LeaderElectionRecord} (h : r.holder_identity = cfg.identity) :
    ¬Foreign cfg r := fun hforeign => hforeign.2 h

variable (h : Consistent cfg c e)
include h

theorem Consistent.next (hc : Cell.Next c c') : Consistent cfg c' e :=
  ⟨fun lease hlease => (h.lease lease hlease).next hc, h.seen, h.waits⟩

theorem Consistent.waiting {phase : Phase} (hphase : e.phase = phase) :
    Waits cfg { e with phase := phase } := by
  subst hphase
  exact h.waits

theorem Consistent.tick {clock : Time} (hclock : e.clock ≤ clock) :
    Consistent cfg c { e with clock := clock } := by
  refine ⟨h.lease, h.seen, ?_⟩
  have hwaits := h.waits
  unfold Waits at hwaits ⊢
  dsimp only
  split at hwaits
  · trivial
  · exact ⟨Int.le_trans hwaits.1 hclock, hwaits.2⟩
  · exact ⟨Int.le_trans hwaits.1 hclock, hwaits.2⟩
  · exact hwaits
  · exact ⟨Int.le_trans hwaits.1 hclock, hwaits.2⟩
  · trivial
  · exact hwaits

theorem Consistent.idle : Consistent cfg c { e with phase := .idle } :=
  ⟨h.lease, h.seen, trivial⟩

variable {now : Time}

theorem Consistent.try_acquire_or_renew (hnow : now ≤ e.clock) :
    Consistent cfg c (e.try_acquire_or_renew cfg now) := by
  have hfresh : ¬Foreign cfg (Elector.fresh_record cfg now) := not_foreign_of_holder rfl
  unfold Elector.try_acquire_or_renew
  split_ifs with hvalid
  · have hleader := (Bool.and_eq_true_iff.mp hvalid).1
    exact ⟨h.lease, h.seen, hnow, not_foreign_of_holder rfl, hleader⟩
  · exact ⟨h.lease, h.seen, hnow, hfresh⟩

theorem Consistent.update_failed : Consistent cfg c e.update_failed := by
  have hwaits := h.waits
  unfold Waits at hwaits
  unfold Elector.update_failed
  split at hwaits
  case h_2 hphase =>
    rw [hphase]
    exact ⟨h.lease, h.seen, hwaits.1, hwaits.2.1⟩
  all_goals
    next hphase =>
      rw [hphase]
      exact h.idle

variable {lease : Lease} {record : LeaderElectionRecord}

theorem Consistent.pending (hpending : e.pending = some record) : ¬Foreign cfg record := by
  rcases pending_cases hpending with ⟨now, hphase⟩ | ⟨now, hphase⟩ | hphase
  · exact (h.waiting hphase).2.1
  · exact (h.waiting hphase).2.1
  · exact (h.waiting hphase).1

omit h

/-- After a write the lock and the elector know the same record. -/
theorem consistent_written {clock : Time} (hrecord : ¬Foreign cfg record) :
    Consistent cfg (c.put (put_record c record).value)
      (e.written record (put_record c record) clock) := by
  refine ⟨?_, fun hforeign => absurd hforeign hrecord, trivial⟩
  intro lease hlease
  cases hlease
  exact Cell.recorded_of_content rfl

/-! ### Observing -/

variable {old : LeaderElectionRecord} {clock : Time}

@[simp]
theorem observe_record : (e.observe old clock).observed.record = old := by
  unfold Elector.observe
  split_ifs with h
  · rfl
  · exact not_not.mp h

@[simp]
theorem observe_lease : (e.observe old clock).lease = e.lease := by
  unfold Elector.observe
  split_ifs <;> rfl

@[simp]
theorem observe_clock : (e.observe old clock).clock = e.clock := by
  unfold Elector.observe
  split_ifs <;> rfl

theorem seen_observe (h : Foreign cfg e.observed.record → (e.observed.record, e.observed.time) ∈ e.seen)
    (hold : (old, clock) ∈ e.seen) (hforeign : Foreign cfg old) :
    (old, (e.observe old clock).observed.time) ∈ (e.observe old clock).seen := by
  unfold Elector.observe
  split_ifs with hrecord
  · exact hold
  · have heq : e.observed.record = old := not_not.mp hrecord
    rw [heq] at h
    exact h hforeign

/-- **The get of `try_acquire_or_renew` brings lock and elector together**; it goes on only
    if the lease is free, its own, or over. -/
theorem Consistent.got (h : Consistent cfg c e) (hphase : e.phase = .getting now record)
    (hlease : c.content = some lease) :
    Consistent cfg c (e.got cfg now record lease clock) := by
  obtain ⟨hnow, hrecord⟩ := h.waiting hphase
  unfold Elector.got
  dsimp only
  generalize he : ({ e with lease := some lease, seen := (record_of lease, clock) :: e.seen } :
    Elector).observe (record_of lease) clock = e₁
  have hrecord₁ : e₁.observed.record = record_of lease := by rw [← he, observe_record]
  have hlease₁ : e₁.lease = some lease := by rw [← he, observe_lease]
  have hclock₁ : e₁.clock = e.clock := by rw [← he, observe_clock]
  have hseen₁ : Foreign cfg e₁.observed.record → (e₁.observed.record, e₁.observed.time) ∈ e₁.seen := by
    rw [hrecord₁, ← he]
    exact seen_observe (fun hf => .tail _ (h.seen hf)) (.head _)
  have hcell₁ : ∀ lease', e₁.lease = some lease' → c.Recorded lease' := by
    intro lease' hlease'
    cases hlease₁.symm.trans hlease'
    exact Cell.recorded_of_content hlease
  split_ifs with hheld hleader
  · exact ⟨hcell₁, hseen₁, trivial⟩
  · refine ⟨hcell₁, hseen₁, hclock₁ ▸ hnow, hrecord, ⟨lease, hlease₁, hrecord₁.symm⟩, ?_⟩
    intro hforeign
    have hnot : e₁.is_leader cfg = false := not_leader_of_foreign hforeign
    nomatch hleader.symm.trans hnot
  · refine ⟨hcell₁, hseen₁, hclock₁ ▸ hnow, hrecord, ⟨lease, hlease₁, hrecord₁.symm⟩, ?_⟩
    intro hforeign
    have hholder : (record_of lease).holder_identity ≠ "" := hrecord₁ ▸ hforeign.1
    show e₁.is_lease_valid now = false
    by_contra hvalid
    refine hheld ?_
    simp [hholder, eq_true_of_ne_false hvalid, hleader]

/-- The get of `release` refreshes the lock alone. -/
theorem Consistent.release_got (h : Consistent cfg c e)
    (hlease : c.content = some lease) : Consistent cfg c (e.release_got cfg lease clock) := by
  have hcell : ∀ lease', some lease = some lease' → c.Recorded lease' := by
    intro lease' hlease'
    cases hlease'
    exact Cell.recorded_of_content hlease
  have hseen : Foreign cfg e.observed.record → (e.observed.record, e.observed.time) ∈
      (record_of lease, clock) :: e.seen := fun hforeign => .tail _ (h.seen hforeign)
  unfold Elector.release_got
  dsimp only
  split_ifs with hleader
  · exact ⟨hcell, hseen, trivial⟩
  · refine ⟨hcell, hseen, fun hforeign => hforeign.1 rfl, ?_⟩
    cases hl : e.is_leader cfg with
    | true => exact hl
    | false => exact absurd (congrArg not hl) hleader

variable {ι : Type} {i : ι} {l : Label ι} {e' : Elector}

theorem Turn.cell (ht : Turn cfg i c e l c' e') : Cell.Next c c' := by
  cases ht with
  | created | create_lost | updated | update_lost => exact .put _
  | _ => exact .same

/-- **A turn keeps the invariant.** -/
theorem Turn.consistent (ht : Turn cfg i c e l c' e') (h : Consistent cfg c e) :
    Consistent cfg c' e' := by
  cases ht with
  | tries clock hclock => exact (h.tick hclock).try_acquire_or_renew (Int.le_refl _)
  | releases | stops => exact ⟨h.lease, h.seen, trivial⟩
  | got clock hclock hphase hlease => exact (h.tick hclock).got hphase hlease
  | missing _ _ hphase => exact ⟨h.lease, h.seen, (h.waiting hphase).2⟩
  | release_got _ hclock _ hlease => exact (h.tick hclock).release_got hlease
  | failed _ _ hclock => exact (h.tick hclock).update_failed
  | created _ _ hphase => exact consistent_written (h.waiting hphase)
  | create_lost _ hclock => exact (h.tick hclock).idle.next (.put _)
  | updated _ _ hpending =>
    exact consistent_written (h.pending hpending)
  | update_lost _ hclock =>
    exact (h.tick hclock).update_failed.next (.put _)

/-- A write over a Lease is an update by an elector whose lock saw that Lease last, to the
    record it waits with. -/
theorem Turn.overwrites (ht : Turn cfg i c e l c' e') (h : Consistent cfg c e)
    (hlease : c.content = some lease) (hwrite : c'.content ≠ some lease) :
    e.lease = some lease ∧
      ∃ record, e.pending = some record ∧ c'.content = some (put_record c record) := by
  have hcurrent : ∀ lease', e.lease = some lease' →
      c.content.map Versioned.revision = some lease'.revision → e.lease = some lease := by
    intro lease' hlease' hrevision
    rw [hlease, Option.map_some] at hrevision
    rw [hlease', (h.lease lease' hlease').eq_of_revision_eq hlease (Option.some.inj hrevision).symm]
  cases ht with
  | created clock hclock hphase hnone | create_lost clock hclock hphase hnone =>
    nomatch hnone.symm.trans hlease
  | updated _ _ hpending hlease' hrevision | update_lost _ _ hpending hlease' hrevision =>
    exact ⟨hcurrent _ hlease' hrevision, _, hpending, rfl⟩
  | _ => exact absurd hlease hwrite

/-- An elector that waits to write over another's record decided on that record, and
    after it had expired; or it takes itself for the leader. -/
theorem Consistent.legitimate (h : Consistent cfg c e)
    (hpending : e.pending = some record) (hlease : e.lease = some lease) (hforeign : Foreign cfg (record_of lease))
    (hleader : e.is_leader cfg = false) : Legitimate e (record_of lease) := by
  rcases pending_cases hpending with ⟨now, hphase⟩ | ⟨now, hphase⟩ | hphase
  · nomatch hleader.symm.trans (h.waiting hphase).2.2
  · obtain ⟨hnow, -, ⟨lease', hlease', hrecord⟩, hexpired⟩ := h.waiting hphase
    cases hlease.symm.trans hlease'
    rw [hrecord] at hforeign ⊢
    have hover := of_decide_eq_false (hexpired hforeign)
    exact ⟨rfl, h.seen hforeign, Int.le_trans (Int.not_lt.mp hover) hnow⟩
  · nomatch hleader.symm.trans (h.waiting hphase).2

theorem update_failed_same (e : Elector) :
    e.update_failed.observed = e.observed ∧ e.update_failed.lease = e.lease := by
  unfold Elector.update_failed
  split <;> exact ⟨rfl, rfl⟩

/-- The elector after its get knows what its lock saw. -/
theorem got_observed :
    (e.got cfg now record lease clock).lease = some lease ∧
      (e.got cfg now record lease clock).observed.record = record_of lease := by
  unfold Elector.got
  dsimp only
  split_ifs <;> simp

/-- Deception is between what was observed and what the lock saw. -/
theorem Deceived.congr (h : Deceived cfg e') (hobserved : e'.observed = e.observed)
    (hlease : e'.lease = e.lease) : Deceived cfg e := by
  obtain ⟨hleader, lease, hlease', hforeign⟩ := h
  refine ⟨?_, lease, hlease ▸ hlease', hforeign⟩
  unfold Elector.is_leader at hleader ⊢
  rw [← hobserved]
  exact hleader

theorem not_deceived_of_holder (hlease : e.lease = some lease)
    (hholder : (record_of lease).holder_identity = e.observed.record.holder_identity) :
    ¬Deceived cfg e := by
  intro ⟨hleader, lease', hlease', hforeign⟩
  cases hlease.symm.trans hlease'
  exact hforeign.2 (hholder.trans (beq_iff_eq.mp hleader))

/-- **Deception comes from `release`**: its get returns another's record to an elector that
    takes itself for the leader. -/
theorem Turn.deceived (ht : Turn cfg i c e l c' e') (hdeceived : Deceived cfg e') :
    Deceived cfg e ∨ ∃ clock lease, l = .get i clock .arrives ∧ e.phase = .release_getting ∧
      c.content = some lease ∧ Foreign cfg (record_of lease) ∧ e.is_leader cfg = true := by
  cases ht with
  | tries =>
    left
    refine hdeceived.congr ?_ ?_ <;> unfold Elector.try_acquire_or_renew <;> dsimp only <;>
      split_ifs <;> rfl
  | releases | missing | stops | create_lost => exact .inl (hdeceived.congr rfl rfl)
  | got =>
    obtain ⟨hcached, hobserved⟩ := got_observed
    exact absurd hdeceived (not_deceived_of_holder hcached (by rw [hobserved]))
  | @release_got lease clock hclock hphase hlease =>
    right
    obtain ⟨hleader, lease', hlease', hforeign⟩ := hdeceived
    have hsame : (({ e with clock := clock } : Elector).release_got cfg lease clock).lease =
        some lease ∧ (({ e with clock := clock } : Elector).release_got cfg lease clock).observed =
        e.observed := by
      unfold Elector.release_got
      dsimp only
      split_ifs <;> exact ⟨rfl, rfl⟩
    cases hsame.1.symm.trans hlease'
    refine ⟨clock, lease, rfl, hphase, hlease, hforeign, ?_⟩
    unfold Elector.is_leader at hleader ⊢
    rw [← hsame.2]
    exact hleader
  | failed | update_lost =>
    exact .inl (hdeceived.congr (update_failed_same _).1 (update_failed_same _).2)
  | created | updated => exact absurd hdeceived (not_deceived_of_holder rfl rfl)

end turns

/-! ### Runs -/

section runs

variable {ι : Type} [DecidableEq ι] {cfg : ι → Config} {s s' : State ι} {l : Label ι}

theorem electors_invariant {I : Config → Cell (Option LeaseSpec) → Elector → Prop}
    (hnew : ∀ cfg c clock, I cfg c (Elector.new clock))
    (hturn : ∀ {cfg} {i : ι} {c e l c' e'}, Turn cfg i c e l c' e' → I cfg c e → I cfg c' e')
    (hnext : ∀ {cfg c c' e}, Cell.Next c c' → I cfg c e → I cfg c' e)
    (h : Reachable (election cfg) s) (i : ι) : I (cfg i) s.lease (s.elector i) := by
  refine Reachable.invariant (I := fun s => ∀ i, I (cfg i) s.lease (s.elector i)) ?_ ?_ h i
  · intro s hinit i
    obtain ⟨clock, heq⟩ := hinit i
    rw [heq]
    exact hnew _ _ _
  · intro s l s' hinv hstep
    obtain ⟨e', hupdate, ht⟩ := turn_of_next hstep
    rw [hupdate]
    exact (Function.forall_update_iff _ fun i e => I (cfg i) s'.lease e).mpr
      ⟨hturn ht (hinv l.elector), fun i _ => hnext ht.cell (hinv i)⟩

/-- **Electors stay consistent**, whoever acts in between. -/
theorem consistent_of_reachable (h : Reachable (election cfg) s) (i : ι) :
    Consistent (cfg i) s.lease (s.elector i) := by
  refine electors_invariant ?_ (fun ht => ht.consistent) (fun hc h => h.next hc) h i
  exact fun _ _ _ => ⟨nofun, fun hforeign => absurd rfl hforeign.1, trivial⟩

/-- **A lease is stolen only by the deceived.** In every run, a write over another's record
    is legitimate exactly if the writer is not deceived; and an elector is deceived only
    after the get of a `release` that found another's record while it took itself for the
    leader. -/
theorem steal_legitimate_iff_not_deceived (hs : Reachable (election cfg) s)
    (hstep : (election cfg).step s l s') :
    (∀ lease, s.lease.content = some lease → s'.lease.content ≠ some lease →
      Foreign (cfg l.elector) (record_of lease) →
      (Legitimate (s.elector l.elector) (record_of lease) ↔
        ¬Deceived (cfg l.elector) (s.elector l.elector))) ∧
    ∀ i, Deceived (cfg i) (s'.elector i) → Deceived (cfg i) (s.elector i) ∨
      ∃ clock lease, l = .get i clock .arrives ∧ (s.elector i).phase = .release_getting ∧
        s.lease.content = some lease ∧ Foreign (cfg i) (record_of lease) ∧
        (s.elector i).is_leader (cfg i) = true := by
  obtain ⟨e', hupdate, hturn⟩ := turn_of_next hstep
  have hinv := consistent_of_reachable hs l.elector
  constructor
  · intro lease hlease hwrite hforeign
    obtain ⟨hcached, record, hpending, -⟩ := hturn.overwrites hinv hlease hwrite
    constructor
    · intro hlegitimate hdeceived
      rw [← hlegitimate.observed] at hforeign
      nomatch hdeceived.1.symm.trans (not_leader_of_foreign hforeign)
    · intro hnot
      refine hinv.legitimate hpending hcached hforeign ?_
      by_contra hleader
      exact hnot ⟨eq_true_of_ne_false hleader, lease, hcached, hforeign⟩
  · intro i hdeceived
    rw [hupdate] at hdeceived
    by_cases hi : i = l.elector
    · subst hi
      rw [Function.update_self] at hdeceived
      exact hturn.deceived hdeceived
    · rw [Function.update_of_ne hi] at hdeceived
      exact .inl hdeceived

end runs

namespace Sample

inductive Candidate where
  | a
  | b
  deriving DecidableEq

/-- Each for a lease of fifteen seconds. -/
def config : Candidate → Config
  | .a => ⟨"a", 15⟩
  | .b => ⟨"b", 15⟩

def start : State Candidate where
  lease := { content := none, last := 0, bound := by simp }
  elector := fun _ => Elector.new 0

/-- The first candidate takes the lease; the other sees it after a second, and again when
    it has expired. -/
def expiry : List (Label Candidate) :=
  [.try_acquire_or_renew .a 0, .get .a 0 .arrives, .create .a 0 .arrives,
    .try_acquire_or_renew .b (1 * second), .get .b (1 * second) .arrives,
    .try_acquire_or_renew .b (20 * second), .get .b (20 * second) .arrives]

/-- The other takes it over; then the first releases what it takes for its own. -/
def takeover : List (Label Candidate) :=
  expiry ++ [.update .b (20 * second) .arrives, .release .a, .get .a (21 * second) .arrives]

theorem exists_step (ls : List (Label Candidate)) (l : Label Candidate)
    {p : State Candidate × State Candidate → Bool}
    (h : ((ls.foldlM (next config) start).bind fun s =>
      (next config s l).map fun s' => (s, s')).any p = true) :
    ∃ s s', Reachable (election config) s ∧ (election config).step s l s' ∧ p (s, s') = true := by
  obtain ⟨⟨s, s'⟩, hss, hp⟩ := (Option.any_eq_true _ _).mp h
  obtain ⟨t, ht, hmap⟩ := Option.bind_eq_some_iff.mp hss
  obtain ⟨t', hstep, hpair⟩ := Option.map_eq_some_iff.mp hmap
  obtain ⟨rfl, rfl⟩ := Prod.mk.inj hpair
  refine ⟨t, t', ?_, hstep, hp⟩
  refine Folds.foldlM_invariant ?_ ⟨[], .init fun _ => ⟨0, rfl⟩⟩ ht
  intro s l s' _ ⟨tr, hexec⟩ hstep
  exact ⟨l :: tr, .step hexec hstep⟩

end Sample

/-- The lease of the second candidate is one second old when the first one's release
    clears it: the first has never observed it. -/
theorem release_clears_live_lease :
    ∃ s s' : State Sample.Candidate, Reachable (election Sample.config) s ∧
      (election Sample.config).step s (.update .a (21 * second) .arrives) s' ∧
      (∃ record, (s.elector .a).phase = .releasing record) ∧
      (s.lease.content.map fun lease => (record_of lease).holder_identity) = some "b" ∧
      (s.lease.content.map fun lease => (record_of lease).renew_time) = some (20 * second) ∧
      (s'.lease.content.map fun lease => (record_of lease).holder_identity) = some "" ∧
      ∀ lease, s.lease.content = some lease → ¬Legitimate (s.elector .a) (record_of lease) := by
  obtain ⟨t, t', hreach, hstep, hcheck⟩ := Sample.exists_step Sample.takeover
    (.update .a (21 * second) .arrives) (p := fun p => decide (
      (match (p.1.elector .a).phase with | .releasing _ => true | _ => false) = true ∧
      (p.1.lease.content.map fun lease => (record_of lease).holder_identity) = some "b" ∧
      (p.1.lease.content.map fun lease => (record_of lease).renew_time) = some (20 * second) ∧
      (p.2.lease.content.map fun lease => (record_of lease).holder_identity) = some "" ∧
      (p.1.elector .a).observed.record.holder_identity = "a")) (by decide +kernel)
  obtain ⟨hphase, hholder, hrenew, hcleared, hobserved⟩ := of_decide_eq_true hcheck
  refine ⟨t, t', hreach, hstep, ?_, hholder, hrenew, hcleared, ?_⟩
  · split at hphase
    · next record h => exact ⟨record, h⟩
    · nomatch hphase
  · intro lease hlease hlegitimate
    have hb : (record_of lease).holder_identity = "b" := by
      rw [hlease] at hholder
      exact Option.some.inj hholder
    rw [← hlegitimate.observed, hobserved] at hb
    nomatch hb

/-- The second candidate takes over an expired lease legitimately. -/
theorem takeover_after_expiry :
    ∃ s s' : State Sample.Candidate, Reachable (election Sample.config) s ∧
      (election Sample.config).step s (.update .b (20 * second) .arrives) s' ∧
      (∃ lease, s.lease.content = some lease ∧ s'.lease.content ≠ some lease ∧
        Foreign (Sample.config .b) (record_of lease) ∧
        Legitimate (s.elector .b) (record_of lease)) := by
  obtain ⟨t, t', hreach, hstep, hcheck⟩ := Sample.exists_step Sample.expiry
    (.update .b (20 * second) .arrives) (p := fun p => decide (
      (p.1.lease.content.map fun lease => (record_of lease).holder_identity) = some "a" ∧
      (p.2.lease.content.map fun lease => (record_of lease).holder_identity) = some "b" ∧
      (p.1.elector .b).observed.record.holder_identity = "a")) (by decide +kernel)
  obtain ⟨hholder, htaken, hobserved⟩ := of_decide_eq_true hcheck
  obtain ⟨lease, hlease, ha⟩ := Option.map_eq_some_iff.mp hholder
  have hwrite : t'.lease.content ≠ some lease := by
    intro hsame
    rw [hsame, Option.map_some, ha] at htaken
    nomatch htaken
  have hforeign : Foreign (Sample.config .b) (record_of lease) := by
    unfold Foreign
    rw [ha]
    decide
  refine ⟨t, t', hreach, hstep, lease, hlease, hwrite, hforeign, ?_⟩
  refine ((steal_legitimate_iff_not_deceived hreach hstep).1 lease hlease hwrite hforeign).mpr ?_
  intro hdeceived
  have hleader := beq_iff_eq.mp hdeceived.1
  nomatch hobserved.symm.trans hleader

end LeaderElection
